import TreeStream.Proofs.SingleRow

/-!
# Flushes that find no row

A flow may be resumed before any row is there. The destination is asked for a batch without rows
then, and the request stays as it was, unless the destination has it worked on meanwhile: then a
pass begins within the flush.
-/

namespace TreeStream

variable {κ σ : Type}

namespace Event

def Begins (r : RequestId) (e : Event) : Prop := ∃ nested, e = .began r nested

theorem IsBackground.not_begins {r : RequestId} {e : Event} (he : e.IsBackground r) :
    ¬ e.Begins r := by
  rintro ⟨nested, rfl⟩
  exact he rfl

/-- Batches without a row, newest event first. -/
inductive AreEmpty (r : RequestId) : List Event → Prop
  | nil : AreEmpty r []
  | cons {log : List Event} (begun completed flushed : Bool) (h : AreEmpty r log) :
    AreEmpty r (.called r .flush (.ok flushed) :: .called r .complete (.ok completed) ::
      .called r .begin (.ok begun) :: log)

end Event

/-- Nothing is put out, the pings stay, and so does the flow. -/
structure Request.StaysOpen (q q' : Request κ) : Prop extends q.SameOutput q' where
  pinged : q.pinged ≠ [] → q'.pinged ≠ []
  flowing : q.flowing = true → q'.flowing = true

theorem Request.StaysOpen.of_output {q q' : Request κ} (hs : q.SameOutput q')
    (hp : q'.pinged = q.pinged) (hf : q'.flowing = q.flowing) : q.StaysOpen q' :=
  ⟨hs, hp ▸ id, hf ▸ id⟩

theorem Request.StaysOpen.refl (q : Request κ) : q.StaysOpen q :=
  .of_output (.of_eq rfl rfl rfl rfl rfl rfl) rfl rfl

theorem Request.StaysOpen.trans {q₁ q₂ q₃ : Request κ} (h : q₁.StaysOpen q₂)
    (h' : q₂.StaysOpen q₃) : q₁.StaysOpen q₃ :=
  ⟨h.toSameOutput.trans h'.toSameOutput, h'.pinged ∘ h.pinged, h'.flowing ∘ h.flowing⟩

theorem Request.Adjusts.staysOpen {f : Request κ → Request κ} (hf : Request.Adjusts f)
    (q : Request κ) : q.StaysOpen (f q) := by
  obtain ⟨sink, fatal, held, pinged, he, hpinged⟩ := hf q
  rw [he]
  refine ⟨.of_eq rfl rfl rfl rfl rfl rfl, fun hne hnil => ?_, id⟩
  exact hne (List.prefix_nil.mp (hnil ▸ hpinged))

theorem Request.Adjusts.running {f : Request κ → Request κ} (hf : Request.Adjusts f)
    (q : Request κ) : (f q).running = q.running := by
  obtain ⟨sink, fatal, held, pinged, he, -⟩ := hf q
  rw [he]

namespace Host

variable {user : UserCode κ σ} {r : RequestId} {h h' h₁ : Host κ σ} {m n : Nat} {q : Request κ}
  {e : Event}

/-- The first pass that began meanwhile was nested. -/
def Interrupted (r : RequestId) (h h' : Host κ σ) : Prop :=
  ∃ h₁ : Host κ σ, Silent (Event.Begins r) h h₁ ∧ (h₁.tell (.began r true)).Extends h'

theorem Interrupted.extends (hi : Interrupted r h h₁) (hgrown : h₁.Extends h') :
    Interrupted r h h' := by
  obtain ⟨h₂, hsilent, hbegun⟩ := hi
  exact ⟨h₂, hsilent, hbegun.trans hgrown⟩

theorem Interrupted.after (hs : Silent (Event.Begins r) h h₁) (hi : Interrupted r h₁ h') :
    Interrupted r h h' := by
  obtain ⟨h₂, hsilent, hbegun⟩ := hi
  exact ⟨h₂, hs.trans hsilent, hbegun⟩

/-! ## While a flush is under way -/

/-- A flush that is under way is interrupted, or no pass begins, nothing is put out, and the request
stays open. -/
def Lulls (r : RequestId) (h h' : Host κ σ) : Prop :=
  h.Extends h' ∧ ∀ q, h.requests[r.index]? = some q → 0 < q.running → q.flushing = true →
    Interrupted r h h' ∨ (Silent (Event.Begins r) h h' ∧
      Silent (Kept.output (κ := κ) r).tells h h' ∧
      ∃ q', h'.requests[r.index]? = some q' ∧ q'.running = q.running ∧ q.StaysOpen q')

theorem Lulls.update {f : Request κ → Request κ}
    (hrunning : ∀ q, (f q).running = q.running) (hf : ∀ q : Request κ, q.StaysOpen (f q)) :
    Lulls r h (h.update r f) :=
  ⟨List.suffix_rfl, fun q hq _ _ =>
    .inr ⟨.of_eq rfl, .of_eq rfl, f q, requests_update_self hq f, hrunning q, hf q⟩⟩

theorem Lulls.tell (hbegins : ¬ e.Begins r) (hout : e.isOutput r = false) :
    Lulls r h (h.tell e) :=
  ⟨.tell h e, fun q hq _ _ => .inr ⟨.tell hbegins, .tell (by simp [Kept.output, hout]), q, hq,
    rfl, .refl q⟩⟩

theorem surrounds_lulls (r : RequestId) : Surrounds r (Lulls (κ := κ) (σ := σ) r) where
  refl h := ⟨List.suffix_rfl, fun q hq _ _ =>
    .inr ⟨.of_eq rfl, .of_eq rfl, q, hq, rfl, .refl q⟩⟩
  trans := by
    rintro h₁ h₂ h₃ ⟨hgrown, hlulls⟩ ⟨hgrown', hlulls'⟩
    refine ⟨hgrown.trans hgrown', fun q hq hrunning hflushing => ?_⟩
    rcases hlulls q hq hrunning hflushing with hi | ⟨hbegins, hout, q', hq', hsame, hopen⟩
    · exact .inl (hi.extends hgrown')
    · rcases hlulls' q' hq' (hsame ▸ hrunning) (hopen.flushing.trans hflushing) with
        hi | ⟨hbegins', hout', q'', hq'', hsame', hopen'⟩
      · exact .inl (.after hbegins hi)
      · exact .inr ⟨hbegins.trans hbegins', hout.trans hout', q'', hq'', hsame'.trans hsame,
          hopen.trans hopen'⟩
  same hreq hj := ⟨⟨[], hj.symm⟩, fun q hq _ _ =>
    .inr ⟨.of_eq hj, .of_eq hj, q, hreq.trans hq, rfl, .refl q⟩⟩
  tell h e he := .tell he.not_begins he.isOutput
  adjust h f hf := .update hf.running hf.staysOpen

theorem Lulls.record (hbegins : ¬ e.Begins r) (hout : e.isOutput r = false) :
    Respects (Lulls r) (Host.record e : HostM κ σ Unit) := by
  intro h a h' hrun
  cases hrun
  exact .tell hbegins hout

theorem Lulls.running {α : Type} {m : HostM κ σ α} (hm : Respects (Lulls r) m) :
    Respects (Lulls r) (Host.running r m) := by
  intro h a h' hrun
  obtain ⟨h₁, hrest, rfl⟩ := running_of_run hrun
  obtain ⟨hgrown, hlulls⟩ := hm hrest
  refine ⟨hgrown, fun q hq hrunning hflushing => ?_⟩
  rcases hlulls _ (requests_update_self hq _) (Nat.succ_pos _) hflushing with
    hi | ⟨hbegins, hout, q', hq', hsame, hopen⟩
  · exact .inl hi
  · refine .inr ⟨hbegins, hout, _, requests_update_self hq' _, ?_, ?_⟩
    · change q'.running - 1 = q.running
      rw [hsame]
      rfl
    · have hbefore : q.StaysOpen { q with running := q.running + 1 } :=
        .of_output (.of_eq rfl rfl rfl rfl rfl rfl) rfl rfl
      have hafter : q'.StaysOpen { q' with running := q'.running - 1 } :=
        .of_output (.of_eq rfl rfl rfl rfl rfl rfl) rfl rfl
      exact hbefore.trans (hopen.trans hafter)

theorem Lulls.flush : Respects (Lulls r) (flush user (perform user m) r n) := by
  intro h result h' hrun
  have F : Frames user r Extends := frames_extends user r
  refine ⟨F.flush (F.perform m) (respectsFlush_extends r) n hrun, fun q hq _ hflushing => ?_⟩
  rw [Host.flush, run_bind, run_request hq, Option.bind_some, if_pos hflushing] at hrun
  cases hrun
  exact .inr ⟨.of_eq rfl, .of_eq rfl, q, hq, rfl, .refl q⟩

theorem Lulls.pass {α : Type} {k : Except RenderError Unit → HostM κ σ α}
    (hk : ∀ result, Respects Extends (k result)) :
    Respects (Lulls r) (Host.running r do k (← Host.pass user (perform user n) r n)) := by
  intro h a h' hrun
  have F : Frames user r Extends := frames_extends user r
  refine ⟨F.pass n (F.perform n) hk hrun, fun q hq hrunning _ => .inl ?_⟩
  obtain ⟨h₁, hrest, rfl⟩ := running_of_run hrun
  obtain ⟨⟨result, h₂⟩, hpass, hend⟩ := Option.bind_eq_some_iff.mp hrest
  obtain ⟨q', hq', hbegun⟩ := began_of_pass hpass
  cases (requests_update_self hq _).symm.trans hq'
  rw [decide_eq_true (Nat.succ_lt_succ hrunning)] at hbegun
  have hgrown : h₂.Extends h₁ := hk result hend
  exact ⟨h.update r _, .of_eq rfl, hbegun.trans hgrown⟩

theorem frames_lulls (user : UserCode κ σ) (r : RequestId) : Frames user r (Lulls r) := by
  have F := surrounds_lulls (κ := κ) (σ := σ) r
  have hflow : Respects (Lulls r)
      (modifyRequest r fun req => { req with flowing := true } : HostM κ σ Unit) := by
    intro h a h' hrun
    cases hrun
    exact .update (fun _ => rfl) fun q => ⟨.of_eq rfl rfl rfl rfl rfl rfl, id, fun _ => rfl⟩
  refine
    { F with
      visit := Lulls.running
      start := F.bind hflow fun _ => F.bind (Lulls.record ?_ rfl) fun _ => F.schedulePass
      flow := fun n _ => Lulls.running (F.bind F.request fun _ =>
        F.bind (Lulls.record ?_ rfl) fun _ => F.bind hflow fun _ => Lulls.flush)
      pass := fun n α k _ hk => Lulls.pass fun result h a h' hrun => (hk result hrun).1 }
  · rintro ⟨nested, ⟨⟩⟩
  · rintro ⟨nested, ⟨⟩⟩

/-! ## The batch without rows -/

/-- The destination is asked something within the flush. -/
theorem callDestination_lulls {α : Type} {k : Except RenderError Bool → HostM κ σ α} {a : α}
    {c : SinkCall} (hq : h.requests[r.index]? = some q) (hrunning : 0 < q.running)
    (hflushing : q.flushing = true)
    (hrun : (callDestination user (perform user m) r c >>= k) h = some (a, h'))
    (hs : Silent (Event.Fails r) h h') (hk : ∀ answer, Respects Extends (k answer)) :
    Interrupted r h h' ∨ ∃ b h₁ q₁, k (.ok b) h₁ = some (a, h') ∧ Silent (Event.Fails r) h₁ h' ∧
      Silent (Event.Begins r) h h₁ ∧ h₁.outputs r = .called r c (.ok b) :: h.outputs r ∧
      h₁.requests[r.index]? = some q₁ ∧ q₁.running = q.running ∧ q.StaysOpen q₁ := by
  obtain ⟨b, h₁, hrest, ⟨-, hlulls⟩, hs'⟩ :=
    callDestination_sound (frames_lulls user r) hq hrun hs hk
  have hcalling : Silent (Event.Begins r) h (h.tell (.calling r c q.pending)) :=
    .tell (by simp [Event.Begins])
  rcases hlulls q hq hrunning hflushing with hi | ⟨hbegins, hout, q₁, hq₁, hsame, hopen⟩
  · exact .inl (.after hcalling (hi.extends ((Extends.tell h₁ _).trans (hk _ hrest))))
  · have hcalled : Silent (Event.Begins r) h₁ (h₁.tell (.called r c (.ok b))) :=
      .tell (by simp [Event.Begins])
    exact .inr ⟨b, _, q₁, hrest, hs', hcalling.trans (hbegins.trans hcalled), outputs_called hout,
      hq₁, hsame, hopen⟩

theorem writeBatch_none {result : Except RenderError Unit} (hq : h.requests[r.index]? = some q)
    (hrows : ∀ kind, q.rows kind = [])
    (hrun : writeBatch user (perform user m) r n h = some (result, h')) :
    result = .ok () ∧ h' = h := by
  obtain ⟨⟨written, h₁⟩, hvalues, herrors⟩ := Option.bind_eq_some_iff.mp hrun
  obtain ⟨rfl, rfl⟩ := writeRows_none hq (hrows .model) hvalues
  exact writeRows_none hq (hrows .error) herrors

/-- A flush that finds no row while one is pending asks for an empty batch. -/
theorem flush_empty {result : Except RenderError Unit} (hq : h.requests[r.index]? = some q)
    (hrunning : 0 < q.running) (hrows : ∀ kind, q.rows kind = []) (hpending : q.pending ≠ 0)
    (hidle : q.flushing = false) (hopen : q.closed = false)
    (hrun : flush user (perform user m) r n h = some (result, h'))
    (hs : Silent (Event.Fails r) h h') :
    Interrupted r h h' ∨ (Silent (Event.Begins r) h h' ∧ ∃ begun completed flushed q',
      h'.outputs r = [.called r .flush (.ok flushed), .called r .complete (.ok completed),
        .called r .begin (.ok begun)] ++ h.outputs r ∧
      h'.requests[r.index]? = some q' ∧ q.StaysOpen q') := by
  have F : Frames user r Extends := frames_extends user r
  have hd : RespectsFlush Extends r := respectsFlush_extends (κ := κ) (σ := σ) r
  rw [run_flush hq hidle hopen] at hrun
  obtain ⟨⟨result', h₁⟩, hbatch, hend⟩ := Option.map_eq_some_iff.mp hrun
  cases hend
  have hs : Silent (Event.Fails r) (h.update r fun q => { q with flushing := true }) h₁ := hs
  rcases callDestination_lulls (requests_update_self hq _) hrunning rfl hbatch hs
    (F.afterBegin (F.perform m) hd n) with
    hi | ⟨begun, h₂, q₂, hbegun, hs, hb₂, hout₂, hq₂, hsame₂, hopen₂⟩
  · exact .inl hi
  have hrows₂ : ∀ kind, q₂.rows kind = [] := fun kind => by
    rw [hopen₂.rows]
    cases kind
    · exact hrows .model
    · exact hrows .error
  obtain ⟨⟨written, h₃⟩, hwritten, hrest⟩ := Option.bind_eq_some_iff.mp hbegun
  obtain ⟨rfl, rfl⟩ := writeBatch_none hq₂ hrows₂ hwritten
  rcases callDestination_lulls hq₂ (hrunning.trans_eq hsame₂.symm) hopen₂.flushing hrest hs
    (F.afterComplete (F.perform m) hd (.ok ())) with
    hi | ⟨completed, h₄, q₄, hrest, hs, hb₄, hout₄, hq₄, hsame₄, hopen₄⟩
  · exact .inl (.after hb₂ hi)
  have hsame₄ := hsame₄.trans hsame₂
  have hopen₄ := hopen₂.trans hopen₄
  rcases callDestination_lulls hq₄ (hrunning.trans_eq hsame₄.symm) hopen₄.flushing hrest hs
    (F.afterFlush (F.perform m) hd) with
    hi | ⟨flushed, h₅, q₅, hrest, -, hb₅, hout₅, hq₅, -, hopen₅⟩
  · exact .inl (.after (hb₂.trans hb₄) hi)
  have hopen₅ := hopen₄.trans hopen₅
  have hrest : closeIfFinished user (perform user m) r h₅ = some (result', h₁) := hrest
  rw [closeIfFinished, run_bind, run_request hq₅, Option.bind_some,
    if_neg (hopen₅.pending ▸ hpending)] at hrest
  cases hrest
  refine .inr ⟨hb₂.trans (hb₄.trans hb₅), begun, completed, flushed, _, ?_,
    requests_update_self hq₅ _, ⟨.of_eq hopen₅.segments (hopen₅.rows .model) (hopen₅.rows .error)
      hopen₅.pending hopen₅.closed hidle.symm, hopen₅.pinged, hopen₅.flowing⟩⟩
  have hout₂ : h₃.outputs r = .called r .begin (.ok begun) :: h.outputs r := hout₂
  have hout₅ : (h₅.update r fun q => { q with flushing := false }).outputs r = _ := hout₅
  rw [hout₅, hout₄, hout₂]
  rfl

end Host
end TreeStream

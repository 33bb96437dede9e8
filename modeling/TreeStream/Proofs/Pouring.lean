import TreeStream.Proofs.Flows

/-!
# Actions on a stream

No user code stands in front of the channel of a stream, so a flush of it calls nobody, and what it
does to the flow is known to the end. A pass of the stream does what its flush does, whatever user
code runs in it, and the driver looks at the flow, resumes it and goes back to sleep.
-/

namespace TreeStream

variable {κ σ α β : Type} {r r' : RequestId} {f f' : Flow κ}

/-- From a host that shows this flow the action leads to one that shows a flow as told. -/
def Brings (r : RequestId) (f : Flow κ) (m : HostM κ σ α) (Q : α → Flow κ → Prop) : Prop :=
  ∀ ⦃h a h'⦄, h.line r = f.line → m h = some (a, h') → ∃ f', h'.line r = f'.line ∧ Q a f'

namespace Host

variable {h : Host κ σ}

theorem exists_of_line (hl : h.line r = f.line) :
    ∃ q, h.requests[r.index]? = some q ∧ q.outline = f.outline := by
  have hr : h.requests[r.index]?.map Request.outline = some f.outline := congrArg Line.request hl
  exact Option.map_eq_some_iff.mp hr

theorem line_update_flow (hl : h.line r = f.line) {g : Request κ → Request κ}
    (hg : ∀ q : Request κ, (g q).outline = g q.outline) (hf : g f.outline = f'.outline)
    (hd : f'.drivers = f.drivers) (hlog : f'.log = f.log) : (h.update r g).line r = f'.line := by
  obtain ⟨q, hr, hq⟩ := exists_of_line hl
  have hrequest : ((h.update r g).line r).request = some f'.outline := by
    rw [line, requests_update_self hr g, Option.map_some, hg q, hq, hf]
  have hdrivers : h.tasks.countP (Task.isDriverOf r) = f.drivers := congrArg Line.drivers hl
  have hpasses : h.queue.countP (Work.isPassOf r) = 0 := congrArg Line.passes hl
  have hold : h.journal.filter (Event.isFlowOf r) = f.log := congrArg Line.log hl
  rw [Flow.line, ← hrequest, hd, hlog, ← hdrivers, ← hold, ← hpasses]
  rfl

end Host

namespace Brings

open Host

variable {m : HostM κ σ α} {k : α → HostM κ σ β} {a : α} {Q Q' : α → Flow κ → Prop}
  {R : β → Flow κ → Prop}

theorem pure (hq : Q a f) : Brings r f (Pure.pure a : HostM κ σ α) Q := by
  intro h b h' hl hm
  cases hm
  exact ⟨f, hl, hq⟩

theorem failure : Brings r f (Alternative.failure : HostM κ σ α) Q := by
  intro h b h' _ hm
  cases hm

theorem bind (hm : Brings r f m Q) (hk : ∀ a f', Q a f' → Brings r f' (k a) R) :
    Brings r f (m >>= k) R := by
  intro h b h'' hl hrun
  obtain ⟨⟨a, h'⟩, hfirst, hrest⟩ := Option.bind_eq_some_iff.mp hrun
  obtain ⟨f', hl', hq⟩ := hm hl hfirst
  exact hk a f' hq hl' hrest

theorem post (hm : Brings r f m Q) (hq : ∀ a f', Q a f' → Q' a f') : Brings r f m Q' := by
  intro h a h' hl hrun
  obtain ⟨f', hl', hQ⟩ := hm hl hrun
  exact ⟨f', hl', hq a f' hQ⟩

theorem seq (hm : Brings r f m fun _ f₁ => f₁ = f') (hk : ∀ a, Brings r f' (k a) R) :
    Brings r f (m >>= k) R :=
  hm.bind fun a _ he => he ▸ hk a

theorem of_leaves (hm : Leaves r m) : Brings r f m fun _ f₁ => f₁ = f := by
  intro h a h' hl hrun
  exact ⟨f, (hm (hl ▸ f.quiet_line) hrun).trans hl, rfl⟩

theorem request :
    Brings r f (Host.request r : HostM κ σ (Request κ)) fun q f₁ =>
      f₁ = f ∧ q.outline = f.outline := by
  intro h q h' hl hrun
  obtain ⟨hr, rfl⟩ := request_of_run hrun
  obtain ⟨q', hr', hq⟩ := exists_of_line hl
  cases hr.symm.trans hr'
  exact ⟨f, hl, rfl, hq⟩

theorem read {k : Request κ → HostM κ σ β}
    (hk : ∀ q : Request κ, q.outline = f.outline → Brings r f (k q) R) :
    Brings r f (Host.request r >>= k) R :=
  request.bind fun q _ ⟨he, hq⟩ => he ▸ hk q hq

theorem modifyRequest (f' : Flow κ) {g : Request κ → Request κ}
    (hg : ∀ q : Request κ, (g q).outline = g q.outline) (hf : g f.outline = f'.outline)
    (hd : f'.drivers = f.drivers) (hlog : f'.log = f.log) :
    Brings r f (Host.modifyRequest r g : HostM κ σ Unit) fun _ f₁ => f₁ = f' := by
  intro h a h' hl hrun
  cases hrun
  exact ⟨f', line_update_flow hl hg hf hd hlog, rfl⟩

theorem record {e : Event} (he : e.isFlowOf r = true) :
    Brings r f (Host.record e : HostM κ σ Unit) fun _ f₁ =>
      f₁ = { f with log := e :: f.log } := by
  intro h a h' hl hrun
  cases hrun
  refine ⟨_, (line_tell_self he).trans ?_, rfl⟩
  rw [hl]
  rfl

theorem enqueueDriver :
    Brings r f (modify fun h : Host κ σ => { h with tasks := h.tasks ++ [.driver r] } :
      HostM κ σ Unit) fun _ f₁ => f₁ = { f with drivers := f.drivers + 1 } := by
  intro h a h' hl hrun
  cases hrun
  refine ⟨_, ?_, rfl⟩
  have hdrivers : h.tasks.countP (Task.isDriverOf r) = f.drivers := congrArg Line.drivers hl
  have hline : ({ h with tasks := h.tasks ++ [.driver r] } : Host κ σ).line r =
      { h.line r with drivers := f.drivers + 1 } := by
    simp [line, Task.isDriverOf, hdrivers]
  refine hline.trans ?_
  rw [hl]
  rfl

theorem queueDriver (woken : Bool) :
    Brings r f (Host.queueDriver r woken : HostM κ σ Unit) fun _ f₁ =>
      f₁ = { f with drivers := f.drivers + woken.toNat } := by
  cases woken with
  | false => exact pure rfl
  | true => exact enqueueDriver

end Brings

def Flow.asked (f : Flow κ) (r : RequestId) (c : SinkCall) (n : Nat) : Flow κ :=
  { f with
    channel := (f.channel.call c).2.2
    drivers := f.drivers + (f.channel.call c).2.1.toNat
    log := .called r c (f.channel.call c).1 :: .calling r c n :: f.log }

namespace Host

variable {user : UserCode κ σ} {call : (c : HostCall κ) → HostM κ σ c.Reply}

/-! ## Flushes -/

theorem callSink_brings (c : SinkCall) :
    Brings r f (callSink r c : HostM κ σ (Except RenderError Bool)) fun a f₁ =>
      a = (f.channel.call c).1 ∧
        f₁ = { f with
          channel := (f.channel.call c).2.2
          drivers := f.drivers + (f.channel.call c).2.1.toNat } := by
  refine .read fun q hq => ?_
  have hsink : q.settings.sink = .channel f.channel := congrArg (fun q => q.settings.sink) hq
  rw [hsink, Channel.answer_eq]
  refine .seq (.modifyRequest { f with channel := (f.channel.call c).2.2 } (fun _ => rfl) rfl rfl
    rfl) fun _ => ?_
  cases hwoken : (f.channel.call c).2.1 with
  | false => exact .pure ⟨rfl, rfl⟩
  | true => exact .seq .enqueueDriver fun _ => .pure ⟨rfl, rfl⟩

/-- The channel is asked at once, and nobody else. -/
theorem callDestination_brings (c : SinkCall) :
    Brings r f (callDestination user call r c) fun a f₁ =>
      a = (f.channel.call c).1 ∧ ∃ n, f₁ = f.asked r c n := by
  refine .read fun q hq => .seq (.record (by simp [Event.isFlowOf])) fun _ => ?_
  have hverdict : Brings r { f with log := .calling r c q.pending :: f.log }
      (verdict user call r c) fun v f₁ =>
        v = .pass ∧ f₁ = { f with log := .calling r c q.pending :: f.log } := by
    refine .read fun q hq => ?_
    have hguard : q.settings.guard = none := congrArg (fun q => q.settings.guard) hq
    rw [hguard]
    exact .pure ⟨rfl, rfl⟩
  refine hverdict.bind fun v f₁ hP => ?_
  obtain ⟨rfl, rfl⟩ := hP
  refine (callSink_brings c).bind fun a f₁ hP => ?_
  obtain ⟨rfl, rfl⟩ := hP
  exact .seq (.record (by simp [Event.isFlowOf])) fun _ => .pure ⟨rfl, _, rfl⟩

theorem asked_quiet {c : SinkCall} (hc : f.channel.call c = (.ok true, false, f.channel)) (n : Nat) :
    f.asked r c n = { f with log := .called r c (.ok true) :: .calling r c n :: f.log } := by
  rw [Flow.asked, hc]
  rfl

theorem told_quiet {c : SinkCall} (hc : c.row? = none) (n : Nat) (log : List Event) :
    Told [] log (.called r c (.ok true) :: .calling r c n :: log) := by
  have htold := Told.call (r := r) (c := c) true n log
  rwa [hc] at htold

theorem asked_write (ho : f.channel.Open) (row : Row) (n : Nat) :
    (f.channel.call (.write row)).1 = .ok (decide (f.channel.buffered + 1 < f.channel.limit)) ∧
      f.asked r (.write row) n = f.pour [row] false
        (.called r (.write row) (.ok (decide (f.channel.buffered + 1 < f.channel.limit))) ::
          .calling r (.write row) n :: f.log) := by
  simp [Flow.asked, Channel.call, ho.write, Flow.pour]

theorem asked_write_refused (ho : ¬ f.channel.Open) (row : Row) (n : Nat) :
    ∃ e, (f.channel.call (.write row)).1 = .error e ∧
      f.asked r (.write row) n =
        { f with
          log := .called r (.write row) (.error e) :: .calling r (.write row) n :: f.log } := by
  obtain ⟨e, hwrite⟩ := Channel.write_of_not_open ho row
  exact ⟨e, by simp [Flow.asked, Channel.call, hwrite]⟩

/-- The rows of one kind go to the channel, one row too many at most. -/
theorem writeRows_brings (kind : RowKind) (n : Nat) :
    Brings r f (writeRows user call r kind n) fun a f₁ => f.Pours 1 a f₁ := by
  induction n generalizing f with
  | zero => exact .failure
  | succ n ih =>
    refine .seq (.of_leaves (takeRow_leaves kind)) fun row => ?_
    cases row with
    | none =>
      refine .pure ?_
      have hnone := Flow.Pours.poured (f := f) (.inr ⟨rfl, rfl⟩) (.nil f.channel 1) (.refl f.log)
      rwa [Flow.pour_nil] at hnone
    | some row =>
      refine (callDestination_brings _).bind fun a f₁ ⟨ha, m, hf₁⟩ => ?_
      by_cases ho : f.channel.Open
      · obtain ⟨hanswer, hasked⟩ := asked_write (r := r) ho row m
        rw [hanswer] at ha
        rw [hasked] at hf₁
        subst ha hf₁
        by_cases hroom : f.channel.buffered + 1 < f.channel.limit
        · rw [decide_eq_true hroom]
          refine ih.post fun a f₁ hp => ?_
          have htold := Told.call (r := r) (c := .write row) true m f.log
          have hfirst := Flow.Pours.poured (.inl ho) (.room hroom row) htold
          exact hfirst.trans hp
        · rw [decide_eq_false hroom]
          have htold := Told.call (r := r) (c := .write row) false m f.log
          refine .seq (.modifyRequest (f.pour [row] true _) (fun _ => rfl) ?_ rfl rfl) fun _ =>
            .pure (.poured (.inl ho) (.stop hroom row) htold)
          simp [Flow.pour, Flow.outline]
      · obtain ⟨e, hanswer, hasked⟩ := asked_write_refused (r := r) ho row m
        rw [hanswer] at ha
        rw [hasked] at hf₁
        subst ha hf₁
        exact .pure (.refused ho e _)

theorem writeBatch_brings (n : Nat) :
    Brings r f (writeBatch user call r n) fun a f₁ => f.Pours 2 a f₁ := by
  refine (writeRows_brings .model n).bind fun a f₁ hmodel => ?_
  cases a with
  | error e =>
    cases hmodel with
    | refused ho e log => exact .pure (.refused ho e log)
  | ok u => exact (writeRows_brings .error n).post fun a f₂ herror => hmodel.trans herror

theorem callDestination_quiet {c : SinkCall} (hc : c.row? = none)
    (hcall : f.channel.call c = (.ok true, false, f.channel)) :
    Brings r f (callDestination user call r c) fun a f₁ =>
      a = .ok true ∧ ∃ log, Told [] f.log log ∧ f₁ = { f with log := log } := by
  refine (callDestination_brings c).post fun a f₁ ⟨ha, n, hf₁⟩ => ?_
  rw [asked_quiet hcall] at hf₁
  rw [hcall] at ha
  exact ⟨ha, _, told_quiet hc n f.log, hf₁⟩

theorem closeIfFinished_brings {f₀ : Flow κ} (hc : f₀.closed = false)
    (hp : f₀.Pours 2 (.ok ()) f) :
    Brings r f (closeIfFinished user call r) fun a f₁ => f₀.Flushes a f₁ := by
  refine .read fun q hq => ?_
  split
  · refine .seq (.modifyRequest { f with closed := true } (fun _ => rfl) rfl rfl rfl) fun _ => ?_
    refine (callDestination_brings .close).bind fun a f₁ ⟨ha, n, hf₁⟩ => ?_
    subst ha hf₁
    exact .pure (.closed (hp.talk (told_quiet (r := r) (c := .close) rfl n f.log)))
  · exact .pure (.written hc hp)

theorem endBatch_brings {f₀ : Flow κ} (hc : f₀.closed = false) {written : Except RenderError Unit}
    (hp : f₀.Pours 2 written f) :
    Brings r f (endBatch user call r written) fun a f₁ => f₀.Flushes a f₁ := by
  refine (callDestination_quiet (c := .complete) rfl rfl).bind fun a f₁ ⟨ha, log, hlog, hf₁⟩ => ?_
  subst ha hf₁
  cases written with
  | error e => exact .pure (.written hc (hp.talk hlog))
  | ok u =>
    refine (callDestination_quiet (c := .flush) rfl rfl).bind fun a f₂ ⟨ha, log', hlog', hf₂⟩ => ?_
    subst ha hf₂
    exact closeIfFinished_brings hc ((hp.talk hlog).talk hlog')

theorem batch_brings (hc : f.closed = false) (n : Nat) :
    Brings r f (batch user call r n) fun a f₁ => f.Flushes a f₁ := by
  refine (callDestination_quiet (c := .begin) rfl rfl).bind fun a f₁ ⟨ha, log, hlog, hf₁⟩ => ?_
  subst ha hf₁
  refine (writeBatch_brings n).bind fun written f₂ hp => endBatch_brings hc ?_
  have hbegun := Flow.Pours.poured (f := f) (.inr ⟨rfl, rfl⟩) (.nil f.channel 0) hlog
  rw [Flow.pour_nil] at hbegun
  exact hbegun.trans hp

theorem under_self (hflushing : f.flushing = false) : f.under f.running false = f := by
  rw [← hflushing]
  rfl

theorem flush_brings (hflushing : f.flushing = false) (n : Nat) :
    Brings r f (flush user call r n) fun a f₁ => f.Flushes a f₁ := by
  refine .read fun q hq => ?_
  have hidle : q.flushing = false := (congrArg Request.flushing hq).trans hflushing
  rw [hidle]
  refine .seq (.modifyRequest (f.under f.running true) (fun _ => rfl) rfl rfl rfl) fun _ => ?_
  refine .read fun q hq => ?_
  have hq : q.closed = f.closed := congrArg Request.closed hq
  have hdone : ∀ {a f₁}, (f.under f.running true).Flushes a f₁ → Brings r f₁ (do
      modifyRequest r fun req => { req with flushing := false }
      pure a : HostM κ σ _) fun a f₁ => f.Flushes a f₁ := by
    intro a f₁ hf₁
    refine .seq (.modifyRequest (f₁.under f₁.running false) (fun _ => rfl) rfl rfl rfl) fun _ =>
      .pure ?_
    have hunder := hf₁.under f.running false
    rw [hf₁.alike.running]
    rwa [← under_self hflushing]
  cases hc : f.closed with
  | true =>
    rw [hq, hc]
    exact hdone (.idle hc)
  | false =>
    rw [hq, hc]
    exact (batch_brings (f := f.under f.running true) hc n).bind fun a f₁ => hdone

end Host
end TreeStream

import TreeStream.Proofs.Accounting

/-!
# Flushes, passes and the close

Without nested passes a flush and a pass do not interleave, and the destination is closed once, by
the flush that finds no row pending.
-/

namespace TreeStream

variable {κ σ : Type} {W : World κ} {r : RequestId} {g g' : Hand κ} {v v' : View κ}
  {q q' : Request κ}

/-! ## Flushes and passes do not interleave -/

/-- A pass has segments to try, or has not left the one it tries. -/
def PassState.Busy (b : PassState κ) : Prop :=
  b.batch ≠ [] ∨ b.attempt ≠ none ∨ b.current ≠ none

theorem PassState.Busy.of_batch {b : PassState κ} {s : SegmentId} {ss : List SegmentId}
    (h : b.batch = s :: ss) : b.Busy :=
  .inl (by simp [h])

theorem PassState.Busy.of_attempt {b : PassState κ} {a : Attempt κ} (h : b.attempt = some a) :
    b.Busy :=
  .inr (.inl (by simp [h]))

theorem PassState.Busy.of_current {b : PassState κ} {s : SegmentId} (h : b.current = some s) :
    b.Busy :=
  .inr (.inr (by simp [h]))

/-- A pass does not begin during a flush, and while a flush ends a pass, the pass has nothing left
to do. -/
structure Ordered (g : Hand κ) : Prop where
  inFlush : ∀ b ∈ g.passes, b.inFlush = false
  last : ∀ d, g.delivery = some d → d.ofPass = true →
    ∃ b, g.passes = [b] ∧ ¬ b.Busy

theorem Ordered.of_hand (h : Ordered g) (hp : g'.passes = g.passes)
    (hd : g'.delivery = g.delivery) : Ordered g' := by
  refine ⟨?_, ?_⟩
  · rw [hp]
    exact h.inFlush
  · rw [hp, hd]
    exact h.last

theorem Ordered.move (h : Ordered g) {d d' : Delivery} (hp : g'.passes = g.passes)
    (hd : g.delivery = some d) (hd' : g'.delivery = some d') (ho : d'.ofPass = d.ofPass) :
    Ordered g' := by
  refine ⟨by rw [hp]; exact h.inFlush, fun d₁ hd₁ hlast => ?_⟩
  rw [hp]
  cases hd'.symm.trans hd₁
  exact h.last d hd (ho ▸ hlast)

theorem Ordered.work (h : Ordered g) {b b' : PassState κ} {bs : List (PassState κ)}
    (hb : g.passes = b :: bs) (hbusy : b.Busy) (hp : g'.passes = b' :: bs)
    (hin : b'.inFlush = b.inFlush) (hd : g'.delivery = g.delivery) : Ordered g' := by
  refine ⟨fun c hc => ?_, fun d hd₁ hlast => ?_⟩
  · rw [hp] at hc
    rcases List.mem_cons.mp hc with rfl | hc
    · exact hin.trans (h.inFlush b (by rw [hb]; exact List.mem_cons_self))
    · exact h.inFlush c (by rw [hb]; exact List.mem_cons_of_mem _ hc)
  · obtain ⟨b₀, hb₀, hidle⟩ := h.last d (hd ▸ hd₁) hlast
    cases hb.symm.trans hb₀
    exact absurd hbusy hidle

/-- A pass that is not nested begins while no flush is under way. -/
theorem Ordered.delivery_of_begin (h : Ordered g) (hp : g.passes = []) (ho : g.ownFlushes = 0) :
    g.delivery = none := by
  cases hd : g.delivery with
  | none => rfl
  | some d =>
    cases hlast : d.ofPass with
    | true =>
      obtain ⟨b, hb, -⟩ := h.last d hd hlast
      cases hp.symm.trans hb
    | false => simp [Hand.ownFlushes, hd, hlast] at ho

theorem Delivery.ofPass_runDry (d : Delivery) (kind : RowKind) :
    (d.runDry kind).ofPass = d.ofPass := by
  cases kind <;> rfl

theorem Turn.ordered (hc : Course W r g v) (ht : Turn W r g v g' v') (hcalm : v'.Calm r)
    (ih : Ordered g) : Ordered g' := by
  have hbefore := ht.calm hcalm
  cases ht with
  | ambient h => exact ih.of_hand h.hand_eq.1 h.hand_eq.2.1
  | visit h => exact ih.of_hand h.hand_eq.1 h.hand_eq.2
  | flushing h =>
    cases h with
    | openOwn => exact ⟨ih.inFlush, fun d hd hlast => by cases hd; cases hlast⟩
    | openLast hq hf hb hs ha hflowing hcur =>
      obtain rfl := hc.passes_eq hbefore hb
      exact ⟨ih.inFlush, fun d hd hlast => ⟨_, hb, by simp [PassState.Busy, hs, ha, hcur]⟩⟩
    | take kind hq hd | calling c hq hd | called c answer hd | stop hq hd | unfinished hq hd
    | close hq hd => exact ih.move rfl hd rfl rfl
    | runDry kind hq hd => exact ih.move rfl hd rfl (Delivery.ofPass_runDry _ kind)
    | shutOwn => exact ⟨ih.inFlush, fun d hd => nomatch hd⟩
    | shutLast hq hd hdone ho hb =>
      exact ⟨fun c hc => ih.inFlush c (by rw [hb]; exact List.mem_cons_of_mem _ hc),
        fun d hd => nomatch hd⟩
  | working h =>
    cases h with
    | begin hq hm hfresh =>
      obtain ⟨-, hp, ho⟩ := hc.calls_of_begin hq hfresh fun he => hcalm (by simp [← he])
      have hd := ih.delivery_of_begin hp ho
      refine ⟨fun b hb => ?_, fun d hd' => nomatch hd.symm.trans hd'⟩
      rw [hp, List.mem_singleton] at hb
      rw [hb, hd]
      rfl
    | skip hb hs => exact ih.work hb (.of_batch hs) rfl rfl rfl
    | attempt hb hs => exact ih.work hb (.of_batch hs) rfl rfl rfl
    | leave hb ha hcur => exact ih.work hb (.of_current hcur) rfl rfl rfl
    | value hb ha | layer hb ha | wait hb ha | defer _ hb ha | report _ hb ha | complete hb ha
    | fail hb ha => exact ih.work hb (.of_attempt ha) rfl rfl rfl
    | memo => exact ih
    | finish hb hs ha hq hd =>
      have hin := ih.inFlush _ (by rw [hb]; exact List.mem_cons_self)
      rw [hin, Option.isSome_eq_false_iff, Option.isNone_iff_eq_none] at hd
      refine ⟨fun c hc => ?_, fun d hd' => nomatch hd.symm.trans hd'⟩
      exact ih.inFlush c (by rw [hb]; exact List.mem_cons_of_mem _ hc)

theorem Course.ordered (h : Course W r g v) (hcalm : v.Calm r) : Ordered g := by
  induction h with
  | start => exact ⟨fun b hb => (nomatch hb), fun d hd => nomatch hd⟩
  | turn hc ht ih => exact ht.ordered hc hcalm (ih (ht.calm hcalm))

/-! ## Closing -/

def Event.isClose : Event → Bool
  | called _ .close _ => true
  | _ => false

/-- The destination is closed once, by the flush that closes the request. A flush that has not
looked at the pending rows and found the request open finds it open still. -/
structure Closes (g : Hand κ) (v : View κ) (q : Request κ) : Prop where
  idle : ∀ d, g.delivery = some d → d.idle = true → q.closed = true
  undecided : ∀ d, g.delivery = some d → d.idle = false → d.decided = false → q.closed = false
  calls : v.log.countP Event.isClose + (g.delivery.any Delivery.closing).toNat = q.closed.toNat

theorem Closes.of_eq (h : Closes g v q) (hd : g'.delivery = g.delivery) (hq : q'.closed = q.closed)
    (hlog : v'.log.countP Event.isClose = v.log.countP Event.isClose) : Closes g' v' q' := by
  refine ⟨?_, ?_, ?_⟩
  · rw [hd, hq]
    exact h.idle
  · rw [hd, hq]
    exact h.undecided
  · rw [hd, hq, hlog]
    exact h.calls

theorem Closes.move (h : Closes g v q) {d d' : Delivery} (hd : g.delivery = some d)
    (hd' : g'.delivery = some d') (hi : d'.idle = d.idle) (hdecided : d'.decided = d.decided)
    (hclosing : d'.closing = d.closing) (hq : q'.closed = q.closed)
    (hlog : v'.log.countP Event.isClose = v.log.countP Event.isClose) : Closes g' v' q' := by
  refine ⟨fun d₁ hd₁ hidle => ?_, fun d₁ hd₁ hidle hund => ?_, ?_⟩
  · cases hd'.symm.trans hd₁
    rw [hq]
    exact h.idle d hd (hi ▸ hidle)
  · cases hd'.symm.trans hd₁
    rw [hq]
    exact h.undecided d hd (hi ▸ hidle) (hdecided ▸ hund)
  · have := h.calls
    rw [hd, Option.any_some] at this
    rw [hd', Option.any_some, hclosing, hq, hlog]
    exact this

theorem Closes.end (h : Closes g v q) {d : Delivery} (hd : g.delivery = some d)
    (hclosing : d.closing = false) (hd' : g'.delivery = none) (hq : q'.closed = q.closed)
    (hlog : v'.log = v.log) : Closes g' v' q' := by
  refine ⟨fun d₁ hd₁ => (nomatch hd'.symm.trans hd₁),
    fun d₁ hd₁ => (nomatch hd'.symm.trans hd₁), ?_⟩
  have := h.calls
  rw [hd, Option.any_some, hclosing] at this
  rw [hd', hq, hlog]
  exact this

theorem Closes.open (h : Closes g v q) (hnone : g.delivery = none) {ofPass : Bool}
    (hd : g'.delivery = some { ofPass := ofPass, idle := q.closed }) (hq : q'.closed = q.closed)
    (hlog : v'.log.countP Event.isClose = v.log.countP Event.isClose) : Closes g' v' q' := by
  refine ⟨fun d hd' hidle => ?_, fun d hd' hidle _ => ?_, ?_⟩
  · cases hd.symm.trans hd'
    exact hq.trans hidle
  · cases hd.symm.trans hd'
    exact hq.trans hidle
  · have := h.calls
    rw [hnone] at this
    rw [hd, hq, hlog]
    exact this

theorem Event.countP_isClose_cons {e : Event} (he : e.isClose = false) (log : List Event) :
    (e :: log).countP isClose = log.countP isClose := by
  rw [List.countP_cons, he]
  rfl

theorem Event.IsAside.isClose {e : Event} (h : e.IsAside) : e.isClose = false := by
  cases e <;> first | rfl | exact h.elim

/-- A call of the destination closes it exactly if that is what the flush is about to do. -/
theorem Closes.called (h : Closes g v q) {d : Delivery} {c : SinkCall}
    (hd : g.delivery = some { d with asked := some c }) (hc : d.Expects c) (answer : Except RenderError Bool) :
    Closes { g with delivery := some (d.called c answer) }
      { v with log := .called r c answer :: v.log } q := by
  refine ⟨fun d₁ hd₁ hidle => ?_, fun d₁ hd₁ hidle hund => ?_, ?_⟩
  · cases hd₁
    exact h.idle _ hd hidle
  · cases hd₁
    exact h.undecided _ hd hidle hund
  · have := h.calls
    rw [hd, Option.any_some] at this
    rw [List.countP_cons, ← this]
    cases c <;> simp [Event.isClose, Delivery.called, hc.closing]

theorem Turn.closes (ht : Turn W r g v g' v') (hf : q.flushing = true ↔ g.delivery ≠ none)
    (hq : v.request = some q) (hq' : v'.request = some q') (ih : Closes g v q) :
    Closes g' v' q' := by
  have hidle : q.flushing = false → g.delivery = none := Hand.delivery_eq_none hf
  cases ht with
  | ambient h =>
    cases h with
    | create settings model hnone => cases hnone.symm.trans hq
    | adjust hq₀ => cases hq.symm.trans hq₀; cases hq'; exact ih.of_eq rfl rfl rfl
    | say e he =>
      cases hq.symm.trans hq'
      exact ih.of_eq rfl rfl (Event.countP_isClose_cons he.isClose _)
    | _ => cases hq.symm.trans hq'; exact ih.of_eq rfl rfl rfl
  | visit h =>
    cases h with
    | enter hq₀ | leave hq₀ | pop hq₀ =>
      cases hq.symm.trans hq₀
      cases hq'
      exact ih.of_eq rfl rfl rfl
    | start hq₀ | flowAgain hq₀ | ping hq₀ | firstPing hq₀ =>
      cases hq.symm.trans hq₀
      cases hq'
      exact ih.of_eq rfl rfl rfl
    | ask | lostPing => cases hq.symm.trans hq'; exact ih.of_eq rfl rfl rfl
  | flushing h =>
    cases h with
    | openOwn hq₀ hfalse | openLast hq₀ hfalse =>
      cases hq.symm.trans hq₀
      cases hq'
      exact ih.open (hidle hfalse) rfl rfl rfl
    | take kind hq₀ hd =>
      cases hq.symm.trans hq₀
      cases hq'
      cases kind <;> exact ih.move hd rfl rfl rfl rfl rfl rfl
    | runDry kind hq₀ hd =>
      cases hq.symm.trans hq'
      cases kind <;> exact ih.move hd rfl rfl rfl rfl rfl rfl
    | calling c hq₀ hd => cases hq.symm.trans hq'; exact ih.move hd rfl rfl rfl rfl rfl rfl
    | called c answer hd hc => cases hq.symm.trans hq'; exact ih.called hd hc answer
    | stop hq₀ hd =>
      cases hq.symm.trans hq₀
      cases hq'
      exact ih.move hd rfl rfl rfl rfl rfl rfl
    | unfinished hq₀ hd =>
      cases hq.symm.trans hq'
      refine ⟨fun d₁ hd₁ hidle => ?_, fun d₁ hd₁ _ hund => ?_, ?_⟩
      · cases hd₁
        exact ih.idle _ hd hidle
      · cases hd₁
        cases hund
      · simpa [hd] using ih.calls
    | close hq₀ hd hn hs hi hund =>
      cases hq.symm.trans hq₀
      cases hq'
      refine ⟨fun d₁ hd₁ _ => rfl, fun d₁ hd₁ _ hdecided => ?_, ?_⟩
      · cases hd₁
        cases hdecided
      · have := ih.calls
        rw [ih.undecided _ hd hi hund, hd, Option.any_some, hn.closing] at this
        simp only [Option.any_some, Bool.toNat_true, Bool.toNat_false] at this ⊢
        omega
    | shutOwn hq₀ hd hdone | shutLast hq₀ hd hdone =>
      cases hq.symm.trans hq₀
      cases hq'
      exact ih.end hd hdone.clear.closing rfl rfl rfl
  | working h =>
    cases h with
    | skip | attempt | leave | value | layer | wait | finish =>
      cases hq.symm.trans hq'
      exact ih.of_eq rfl rfl rfl
    | begin hq₀ | memo _ _ _ hq₀ | defer _ _ _ _ hq₀ | report _ _ _ _ hq₀
    | complete _ _ _ _ hq₀ | fail _ _ _ hq₀ =>
      cases hq.symm.trans hq₀
      cases hq'
      exact ih.of_eq rfl rfl rfl

theorem Created.closes (h : Created r g v) (settings : RequestSettings κ) (model : Model κ) :
    Closes g v (.ofModel settings model) := by
  obtain ⟨log, hlog, hasides⟩ := h.log
  have hd := h.delivery
  have hcount : v.log.countP Event.isClose = 0 := by
    rw [hlog, Event.countP_isClose_cons rfl]
    exact List.countP_eq_zero.mpr fun e he => by simp [(hasides e he).isClose]
  refine ⟨fun d hd' => (nomatch hd.symm.trans hd'), fun d hd' => (nomatch hd.symm.trans hd'), ?_⟩
  rw [hcount, hd]
  rfl

theorem Course.closes (h : Course W r g v) (hq : v.request = some q) : Closes g v q :=
  Course.induct (fun settings model hnew => hnew.closes settings model)
    (fun hc ht hq hq' ih => ht.closes (hc.coherent.flushing _ hq) hq hq' ih) h hq

end TreeStream

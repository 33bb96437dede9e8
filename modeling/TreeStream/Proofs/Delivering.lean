import TreeStream.Proofs.Ordering

/-!
# Rows have a flush coming

A destination that does not fail may still be saturated, which stops the flow until it is resumed.
Unless the flow is resumed within the batch that has been told to stop, no rows are left behind: if
rows are queued between two flushes, the flow has stopped or a pass is coming.
-/

namespace TreeStream

variable {κ σ : Type} {W : World κ} {r : RequestId} {g g' : Hand κ} {v v' : View κ}
  {q q' : Request κ}

/-! ## What the destination has answered -/

def View.Sound (v : View κ) : Prop := ∀ r c e, Event.called r c (.error e) ∉ v.log

/-- The destination has said in the latest batch that it wants no more rows. -/
def Event.saturatedIn : List Event → Bool
  | [] => false
  | .calling _ .begin _ :: _ => false
  | .called _ (.write _) (.ok false) :: _ => true
  | _ :: log => saturatedIn log

/-- During no flush was the flow resumed after the destination had said that it wants no more. -/
def View.Timely (r : RequestId) (v : View κ) : Prop :=
  ∀ later earlier, v.log = later ++ .flowed r true :: earlier → Event.saturatedIn earlier = false

theorem Turn.sound (h : Turn W r g v g' v') (hsound : v'.Sound) : v.Sound := by
  obtain ⟨events, he⟩ := h.log
  intro r c e hmem
  exact hsound r c e (by rw [he]; exact List.mem_append_right events hmem)

theorem Turn.timely (h : Turn W r g v g' v') (htimely : v'.Timely r) : v.Timely r := by
  obtain ⟨events, he⟩ := h.log
  intro later earlier hlog
  refine htimely (events ++ later) earlier ?_
  rw [he, hlog, List.append_assoc]

theorem Event.IsAside.saturatedIn {e : Event} (h : e.IsAside) (log : List Event) :
    saturatedIn (e :: log) = saturatedIn log := by
  cases e <;> first | rfl | exact h.elim

theorem Event.saturatedIn_called (r : RequestId) (c : SinkCall) (answer : Except RenderError Bool)
    (log : List Event) :
    saturatedIn (.called r c answer :: log) = (c.isSaturation answer || saturatedIn log) := by
  cases c with
  | write row =>
    cases answer with
    | error e => rfl
    | ok welcome => cases welcome <;> rfl
  | _ => cases answer <;> rfl

theorem Event.saturatedIn_calling (r : RequestId) {c : SinkCall} (hc : c ≠ .begin) (n : Nat)
    (log : List Event) : saturatedIn (.calling r c n :: log) = saturatedIn log := by
  cases c <;> first | rfl | exact absurd rfl hc

/-! ## The flow stops where it has to -/

/-- Rows can wait: the flow has stopped, or a pass is coming. -/
def CanWait (g : Hand κ) (v : View κ) (q : Request κ) : Prop :=
  q.flowing = false ∨ 0 < v.passes + g.due

/-- A flush has not failed, and once the destination is saturated the flow is stopped. -/
structure Halts (g : Hand κ) (v : View κ) (q : Request κ) : Prop where
  failed : ∀ d, g.delivery = some d → d.failed = false
  fresh : ∀ d, g.delivery = some d → d.stage = .fresh → d.saturated = false
  told : ∀ d, g.delivery = some d → d.saturated = true → Event.saturatedIn v.log = true
  halting : ∀ d, g.delivery = some d → d.halting = true → d.saturated = true
  stops : ∀ d, g.delivery = some d → d.saturated = true → d.halting = true ∨ CanWait g v q

theorem Halts.of_none (hd : g.delivery = none) : Halts g v q :=
  ⟨fun _ h => (nomatch hd.symm.trans h), fun _ h => (nomatch hd.symm.trans h),
    fun _ h => (nomatch hd.symm.trans h), fun _ h => (nomatch hd.symm.trans h),
    fun _ h => (nomatch hd.symm.trans h)⟩

theorem Halts.around (h : Halts g v q) (hd : g'.delivery = g.delivery)
    (hlog : Event.saturatedIn v'.log = Event.saturatedIn v.log)
    (hwait : CanWait g v q → CanWait g' v' q') : Halts g' v' q' := by
  refine ⟨?_, ?_, ?_, ?_, ?_⟩
  · rw [hd]
    exact h.failed
  · rw [hd]
    exact h.fresh
  · rw [hd, hlog]
    exact h.told
  · rw [hd]
    exact h.halting
  · rw [hd]
    exact fun d hd hs => (h.stops d hd hs).imp id hwait

/-- A flush that has not heard of saturation is free to go on. -/
theorem Halts.of_unsaturated {d : Delivery} (hd : g.delivery = some d) (hf : d.failed = false)
    (hs : d.saturated = false) (hh : d.halting = false) : Halts g v q := by
  refine ⟨fun d₁ hd₁ => ?_, fun d₁ hd₁ _ => ?_, fun d₁ hd₁ hs₁ => ?_, fun d₁ hd₁ hh₁ => ?_,
    fun d₁ hd₁ hs₁ => ?_⟩ <;> cases hd.symm.trans hd₁
  · exact hf
  · exact hs
  · exact nomatch hs.symm.trans hs₁
  · exact nomatch hh.symm.trans hh₁
  · exact nomatch hs.symm.trans hs₁

/-- The flush goes on, and the destination has answered nothing. -/
theorem Halts.move (h : Halts g v q) {d d' : Delivery} (hd : g.delivery = some d)
    (hd' : g'.delivery = some d') (hfailed : d'.failed = d.failed)
    (hstage : d'.stage = .fresh → d.stage = .fresh) (hsaturated : d'.saturated = d.saturated)
    (hhalting : d'.halting = d.halting)
    (hlog : d.saturated = true → Event.saturatedIn v.log = true → Event.saturatedIn v'.log = true)
    (hwait : CanWait g v q → CanWait g' v' q') : Halts g' v' q' := by
  refine ⟨fun d₁ hd₁ => ?_, fun d₁ hd₁ hs => ?_, fun d₁ hd₁ hs => ?_, fun d₁ hd₁ hh => ?_,
    fun d₁ hd₁ hs => ?_⟩ <;> cases hd'.symm.trans hd₁
  · rw [hfailed]
    exact h.failed d hd
  · rw [hsaturated]
    exact h.fresh d hd (hstage hs)
  · rw [hsaturated] at hs
    exact hlog hs (h.told d hd hs)
  · rw [hsaturated]
    exact h.halting d hd (hhalting ▸ hh)
  · rw [hsaturated] at hs
    rw [hhalting]
    exact (h.stops d hd hs).imp id hwait

theorem Delivery.stage_called {d : Delivery} {c : SinkCall} (hc : d.Expects c)
    (answer : Except RenderError Bool) : (d.called c answer).stage ≠ .fresh := by
  cases c with
  | write row =>
    cases answer with
    | error e => exact BatchStage.noConfusion
    | ok w =>
      rw [called, BatchStage.after, hc.2.2.2.2]
      exact BatchStage.noConfusion
  | complete =>
    cases answer with
    | error e => exact BatchStage.noConfusion
    | ok w =>
      rw [called, BatchStage.after]
      split <;> exact BatchStage.noConfusion
  | begin | flush | close => cases answer <;> exact BatchStage.noConfusion

theorem Delivery.Expects.halting {d : Delivery} {c : SinkCall} (h : d.Expects c) :
    d.halting = false := by
  cases c with
  | begin => exact h.1.halting
  | write row => exact h.2.2.2.1
  | complete => exact h.1.halting
  | flush => exact h.1.halting
  | close => exact h.2.2.2.1

theorem Halts.called (h : Halts g v q) {d : Delivery} {c : SinkCall}
    {answer : Except RenderError Bool} (hd : g.delivery = some { d with asked := some c })
    (hc : d.Expects c) (hok : answer.isOk = true) :
    Halts { g with delivery := some (d.called c answer) }
      { v with log := .called r c answer :: v.log } q := by
  refine ⟨fun d₁ hd₁ => ?_, fun d₁ hd₁ hs => ?_, fun d₁ hd₁ hs => ?_, fun d₁ hd₁ hh => ?_,
    fun d₁ hd₁ hs => ?_⟩ <;> cases hd₁
  · have : d.failed = false := (h.failed _ hd :)
    simp [Delivery.called, this, hok]
  · exact absurd hs (Delivery.stage_called hc answer)
  · rw [Event.saturatedIn_called]
    rcases Bool.or_eq_true_iff.mp hs with hs | hs
    · rw [h.told _ hd hs, Bool.or_true]
    · rw [hs, Bool.true_or]
  · exact Bool.or_eq_true_iff.mpr (.inr hh)
  · rcases Bool.or_eq_true_iff.mp hs with hs | hs
    · refine .inr ((h.stops _ hd hs).resolve_left fun hh => ?_)
      cases hc.halting.symm.trans hh
    · exact .inl hs

theorem Visit.halts (h : Visit r g v g' v') (hq : v.request = some q) (hq' : v'.request = some q')
    (hf : q.flushing = true ↔ g.delivery ≠ none) (htimely : v'.Timely r) (ih : Halts g v q) :
    Halts g' v' q' := by
  cases h with
  | enter hq₀ | leave hq₀ =>
    cases hq.symm.trans hq₀
    cases hq'
    exact ih.around rfl rfl id
  | pop hq₀ =>
    cases hq.symm.trans hq₀
    cases hq'
    exact ih.around rfl rfl fun _ => .inr (Nat.add_pos_right _ (Nat.succ_pos _))
  | ask =>
    cases hq.symm.trans hq'
    exact ih.around rfl rfl fun _ => .inr (Nat.add_pos_right _ (Nat.succ_pos _))
  | start hq₀ | firstPing hq₀ =>
    cases hq.symm.trans hq₀
    cases hq'
    exact ih.around rfl rfl fun _ => .inr (Nat.add_pos_left (Nat.succ_pos _) _)
  | ping hq₀ =>
    cases hq.symm.trans hq₀
    cases hq'
    exact ih.around rfl rfl id
  | lostPing =>
    cases hq.symm.trans hq'
    exact ih.around rfl rfl id
  | flowAgain hq₀ hflushing =>
    cases hq.symm.trans hq₀
    cases hq'
    obtain ⟨d, hd⟩ := Option.ne_none_iff_exists'.mp (hf.mp hflushing)
    have huntold : Event.saturatedIn v.log = false := htimely [] v.log rfl
    have hunsaturated : d.saturated = false := Bool.eq_false_iff.mpr fun hs =>
      nomatch huntold.symm.trans (ih.told d hd hs)
    refine .of_unsaturated hd (ih.failed d hd) hunsaturated (Bool.eq_false_iff.mpr fun hh => ?_)
    exact nomatch hunsaturated.symm.trans (ih.halting d hd hh)

theorem Flushing.halts (h : Flushing r g v g' v') (hq : v.request = some q)
    (hq' : v'.request = some q') (hsound : v'.Sound) (ih : Halts g v q) : Halts g' v' q' := by
  cases h with
  | openOwn | openLast => exact .of_unsaturated rfl rfl rfl rfl
  | take kind hq₀ hd =>
    cases hq.symm.trans hq₀
    cases hq'
    refine ih.move hd rfl rfl id rfl rfl (fun _ => id) ?_
    cases kind <;> exact id
  | runDry kind hq₀ hd =>
    cases hq.symm.trans hq'
    cases kind <;> exact ih.move hd rfl rfl id rfl rfl (fun _ => id) id
  | calling c hq₀ hd hc =>
    cases hq.symm.trans hq'
    refine ih.move hd rfl rfl id rfl rfl (fun hs htold => ?_) id
    rwa [Event.saturatedIn_calling]
    rintro rfl
    exact nomatch (ih.fresh _ hd hc.2.1).symm.trans hs
  | called c answer hd hc =>
    cases hq.symm.trans hq'
    refine ih.called hd hc ?_
    cases answer with
    | ok w => rfl
    | error e => exact absurd List.mem_cons_self (hsound r c e)
  | stop hq₀ hd =>
    cases hq'
    refine ⟨fun d₁ hd₁ => ?_, fun d₁ hd₁ hs => ?_, fun d₁ hd₁ hs => ?_, fun d₁ hd₁ hh => ?_,
      fun _ _ _ => .inr (.inl rfl)⟩ <;> cases hd₁
    · exact (ih.failed _ hd :)
    · exact (ih.fresh _ hd hs :)
    · exact (ih.told _ hd hs :)
    · cases hh
  | unfinished hq₀ hd =>
    cases hq.symm.trans hq'
    exact ih.move hd rfl rfl BatchStage.noConfusion rfl rfl (fun _ => id) id
  | close hq₀ hd =>
    cases hq.symm.trans hq₀
    cases hq'
    exact ih.move hd rfl rfl id rfl rfl (fun _ => id) id
  | shutOwn | shutLast => exact .of_none rfl

theorem Working.halts (h : Working W r g v g' v') (hq : v.request = some q)
    (hq' : v'.request = some q') (hbegin : ∀ n, v'.log = .began r n :: v.log → g.delivery = none)
    (ih : Halts g v q) : Halts g' v' q' := by
  cases h with
  | begin => exact .of_none (hbegin _ rfl)
  | skip | attempt | leave | value | layer | wait | finish =>
    cases hq.symm.trans hq'
    exact ih.around rfl rfl id
  | memo _ _ _ hq₀ | defer _ _ _ _ hq₀ | report _ _ _ _ hq₀ | complete _ _ _ _ hq₀
  | fail _ _ _ hq₀ =>
    cases hq.symm.trans hq₀
    cases hq'
    exact ih.around rfl rfl id

theorem Ambient.halts (h : Ambient W r g v g' v') (hq : v.request = some q)
    (hq' : v'.request = some q') (ih : Halts g v q) : Halts g' v' q' := by
  cases h with
  | create settings model hnone => cases hnone.symm.trans hq
  | adjust hq₀ => cases hq.symm.trans hq₀; cases hq'; exact ih.around rfl rfl id
  | say e he => cases hq.symm.trans hq'; exact ih.around rfl (he.saturatedIn _) id
  | _ => cases hq.symm.trans hq'; exact ih.around rfl rfl id

/-- No flush is under way when a pass begins that is not nested. -/
theorem Course.delivery_of_begin (hc : Course W r g v) (ht : Turn W r g v g' v')
    (hcalm : v'.Calm r) {n : Bool} (hlog : v'.log = .began r n :: v.log) : g.delivery = none := by
  have hbefore := ht.calm hcalm
  cases ht with
  | ambient h =>
    cases h with
    | create => exact nomatch List.head_eq_of_cons_eq hlog
    | say e he =>
      cases List.head_eq_of_cons_eq hlog
      exact he.elim
    | _ => exact absurd hlog (by simp)
  | visit h => cases h <;> simp at hlog
  | flushing h => cases h <;> simp at hlog
  | working h =>
    cases h with
    | begin hq hm hfresh =>
      obtain ⟨-, hp, ho⟩ := hc.calls_of_begin hq hfresh fun he => hcalm (by simp [← he])
      exact (hc.ordered hbefore).delivery_of_begin hp ho
    | _ => simp at hlog

theorem Course.halts (h : Course W r g v) (hcalm : v.Calm r) (hsound : v.Sound)
    (htimely : v.Timely r) (hq : v.request = some q) : Halts g v q := by
  refine Course.induct (P := fun g v q => v.Calm r → v.Sound → v.Timely r → Halts g v q)
    (fun settings model hnew _ _ _ => .of_none hnew.delivery) ?_ h hq hcalm hsound htimely
  intro g v g' v' q q' hc ht hq hq' ih hcalm hsound htimely
  have ih := ih (ht.calm hcalm) (ht.sound hsound) (ht.timely htimely)
  have hbegin := fun n => hc.delivery_of_begin ht hcalm (n := n)
  cases ht with
  | ambient h => exact h.halts hq hq' ih
  | visit h => exact h.halts hq hq' (hc.coherent.flushing q hq) htimely ih
  | flushing h => exact h.halts hq hq' hsound ih
  | working h => exact h.halts hq hq' hbegin ih

/-! ## No row is left behind -/

theorem Request.queued_eq_nil : q.queued = [] ↔ ∀ kind, q.rows kind = [] := by
  constructor
  · intro h kind
    obtain ⟨hm, he⟩ := List.append_eq_nil_iff.mp h
    cases kind
    · exact hm
    · exact he
  · intro h
    exact List.append_eq_nil_iff.mpr ⟨h .model, h .error⟩

/-- A queue that a flush found empty stays so until the flush is over, unless a pass around it goes
on later. Rows that are queued can wait, or something under way will write them; without rows left
to write the request is closed, or the flush under way is about to close it. -/
structure Delivers (g : Hand κ) (v : View κ) (q : Request κ) : Prop where
  dry : ∀ d, g.delivery = some d → d.ofPass = true ∨ g.passes = [] →
    ∀ kind, d.IsDry kind → q.rows kind = []
  moving : q.queued = [] ∨ CanWait g v q ∨ g.passes ≠ [] ∨ g.delivery ≠ none
  finished : q.pending = 0 →
    q.closed = true ∨ ∃ d, g.delivery = some d ∧ d.idle = false ∧ d.decided = false

/-- What a turn leaves alone that concerns neither rows nor what is under way. -/
structure Request.SameRows (q q' : Request κ) : Prop where
  rows : ∀ kind, q'.rows kind = q.rows kind
  pending : q'.pending = q.pending
  closed : q'.closed = q.closed

theorem Request.SameRows.queued (h : q.SameRows q') : q'.queued = q.queued := by
  rw [Request.queued, Request.queued, show q'.modelRows = q.modelRows from h.rows .model,
    show q'.errorRows = q.errorRows from h.rows .error]

theorem Request.SameRows.of_eq (hm : q'.modelRows = q.modelRows) (he : q'.errorRows = q.errorRows)
    (hp : q'.pending = q.pending) (hc : q'.closed = q.closed) : q.SameRows q' :=
  ⟨fun kind => by cases kind <;> assumption, hp, hc⟩

theorem Delivers.around (h : Delivers g v q) (hs : q.SameRows q') (hp : g'.passes = g.passes)
    (hd : g'.delivery = g.delivery)
    (hwait : CanWait g v q → CanWait g' v' q' ∨ g.delivery ≠ none) : Delivers g' v' q' := by
  refine ⟨?_, ?_, ?_⟩
  · rw [hp, hd]
    exact fun d hd ho kind hdry => (hs.rows kind).trans (h.dry d hd ho kind hdry)
  · rw [hs.queued, hp, hd]
    rcases h.moving with hnil | hw | hpass | hflush
    · exact .inl hnil
    · exact .inr ((hwait hw).imp id .inr)
    · exact .inr (.inr (.inl hpass))
    · exact .inr (.inr (.inr hflush))
  · rw [hs.pending, hs.closed, hd]
    exact h.finished

/-- A pass that has something to do goes on; it may queue rows. -/
theorem Delivers.work (h : Delivers g v q) (ho : Ordered g) {b b' : PassState κ}
    (hb : g.passes = [b]) (hbusy : b.Busy) (hp : g'.passes = [b'])
    (hd : g'.delivery = g.delivery) (hpending : q'.pending = 0 → q.pending = 0)
    (hclosed : q'.closed = q.closed) : Delivers g' v' q' := by
  refine ⟨fun d hd₁ hlast => ?_, .inr (.inr (.inl (by simp [hp]))), fun hnone => ?_⟩
  · rw [hd] at hd₁
    rcases hlast with hlast | hnil
    · obtain ⟨b₀, hb₀, hidle⟩ := ho.last d hd₁ hlast
      cases hb.symm.trans hb₀
      exact absurd hbusy hidle
    · cases hp.symm.trans hnil
  · rw [hclosed, hd]
    exact h.finished (hpending hnone)

theorem Delivers.move (h : Delivers g v q) {d d' : Delivery} (hd : g.delivery = some d)
    (hd' : g'.delivery = some d') (hp : g'.passes = g.passes) (ho : d'.ofPass = d.ofPass)
    (hdry : ∀ kind, d'.IsDry kind → d.IsDry kind ∨ q.rows kind = []) (hs : q.SameRows q')
    (hfin : q.pending = 0 → d.idle = false → d.decided = false →
      q.closed = true ∨ (d'.idle = false ∧ d'.decided = false)) :
    Delivers g' v' q' := by
  refine ⟨fun d₁ hd₁ hlast kind hkind => ?_, .inr (.inr (.inr (by simp [hd']))), fun hnone => ?_⟩
  · cases hd'.symm.trans hd₁
    rw [hs.rows]
    rw [ho, hp] at hlast
    exact (hdry kind hkind).elim (h.dry d hd hlast kind) id
  · rw [hs.pending] at hnone
    rw [hs.closed]
    rcases h.finished hnone with hclosed | ⟨d₁, hd₁, hidle, hund⟩
    · exact .inl hclosed
    · cases hd.symm.trans hd₁
      exact (hfin hnone hidle hund).imp id fun hf => ⟨d', hd', hf⟩

theorem Delivery.isDry_runDry_iff (d : Delivery) (kind kind' : RowKind) :
    (d.runDry kind).IsDry kind' ↔ d.IsDry kind' ∨ kind' = kind := by
  cases kind <;> cases kind' <;> simp [Delivery.runDry, Delivery.IsDry]

/-- A flush that is done has left no rows that cannot wait, unless a pass around it goes on. -/
theorem Delivers.moving_of_done (h : Delivers g v q) (hb : (ledgerOf g v q).Balanced)
    (hh : Halts g v q) (hc : Closes g v q) {d : Delivery} (hd : g.delivery = some d)
    (hdone : d.Done) (hlast : d.ofPass = true ∨ g.passes = []) :
    q.queued = [] ∨ CanWait g v q := by
  rcases hdone.why with ⟨hidle, -⟩ | ⟨-, hfailed | ⟨-, hsaturated | ⟨hmodel, herror⟩⟩⟩
  · exact .inl ((hb.empty_of_closed (hc.idle d hd hidle)).2)
  · exact nomatch (hh.failed d hd).symm.trans hfailed
  · refine .inr ((hh.stops d hd hsaturated).resolve_left fun hhalting => ?_)
    exact nomatch hdone.clear.halting.symm.trans hhalting
  · refine .inl (Request.queued_eq_nil.mpr fun kind => h.dry d hd hlast kind ?_)
    cases kind
    · exact hmodel
    · exact herror

/-- A flush that is done has closed the request if no row is pending. -/
theorem Delivers.closed_of_done (h : Delivers g v q) (hh : Halts g v q) {d : Delivery}
    (hd : g.delivery = some d) (hdone : d.Done) (hp : q.pending = 0) : q.closed = true := by
  rcases h.finished hp with hclosed | ⟨d', hd', hidle, hundecided⟩
  · exact hclosed
  cases hd.symm.trans hd'
  rcases hdone.why with ⟨hi, -⟩ | ⟨-, hfailed | ⟨hdecided, -⟩⟩
  · exact nomatch hidle.symm.trans hi
  · exact nomatch (hh.failed d hd).symm.trans hfailed
  · exact nomatch hundecided.symm.trans hdecided

theorem Flushing.delivers (h : Flushing r g v g' v') (hq : v.request = some q)
    (hq' : v'.request = some q') (hidle : q.flushing = false → g.delivery = none)
    (hb : (ledgerOf g v q).Balanced) (hh : Halts g v q) (hc : Closes g v q)
    (ih : Delivers g v q) : Delivers g' v' q' := by
  cases h with
  | openOwn hq₀ hfalse | openLast hq₀ hfalse =>
    cases hq.symm.trans hq₀
    cases hq'
    have hnone := hidle hfalse
    refine ⟨fun d hd _ kind hdry => ?_, .inr (.inr (.inr (by simp))), fun hp => .inl ?_⟩
    · cases hd
      cases kind <;> cases hdry
    · refine (ih.finished hp).resolve_right ?_
      rintro ⟨d, hd, -⟩
      cases hnone.symm.trans hd
  | @take _ d row rest kind hq₀ hd hn hs hund hr =>
    cases hq.symm.trans hq₀
    cases hq'
    have hne : q.queued ≠ [] := fun hnil => by
      rw [Request.queued_eq_nil.mp hnil kind] at hr
      cases hr
    have hopen : d.idle = false := by
      cases hi : d.idle with
      | false => rfl
      | true => exact absurd ((hb.empty_of_closed (hc.idle d hd hi)).2) hne
    refine ⟨fun d₁ hd₁ hlast kind' hdry => ?_, .inr (.inr (.inr (by simp))),
      fun _ => .inr ⟨_, rfl, hopen, hund⟩⟩
    cases hd₁
    have hrows := ih.dry d hd hlast kind' hdry
    cases kind <;> cases kind' <;> first | exact hrows | exact nomatch hr.symm.trans hrows
  | @runDry _ d kind hq₀ hd hr =>
    cases hq.symm.trans hq'
    cases hq.symm.trans hq₀
    refine ih.move hd rfl rfl (d.ofPass_runDry kind) (fun kind' hdry => ?_)
      (.of_eq rfl rfl rfl rfl) fun _ hi hund => .inr ?_
    · rcases (d.isDry_runDry_iff kind kind').mp hdry with hbefore | rfl
      · exact .inl hbefore
      · exact .inr hr
    · cases kind <;> exact ⟨hi, hund⟩
  | calling c hq₀ hd | called c answer hd =>
    cases hq.symm.trans hq'
    refine ih.move hd rfl rfl rfl (fun kind hdry => ?_) (.of_eq rfl rfl rfl rfl)
      fun _ hi hund => .inr ⟨hi, hund⟩
    cases kind <;> exact .inl hdry
  | stop hq₀ hd =>
    cases hq.symm.trans hq₀
    cases hq'
    refine ih.move hd rfl rfl rfl (fun kind hdry => ?_) (.of_eq rfl rfl rfl rfl)
      fun _ hi hund => .inr ⟨hi, hund⟩
    cases kind <;> exact .inl hdry
  | unfinished hq₀ hd hn hs hne =>
    cases hq.symm.trans hq'
    cases hq.symm.trans hq₀
    refine ih.move hd rfl rfl rfl (fun kind hdry => ?_) (.of_eq rfl rfl rfl rfl)
      fun hp _ _ => absurd hp hne
    cases kind <;> exact .inl hdry
  | @close _ d hq₀ hd hn hs hi hund hp =>
    cases hq.symm.trans hq₀
    cases hq'
    refine ⟨fun d₁ hd₁ hlast kind hdry => ?_, .inr (.inr (.inr (by simp))), fun _ => .inl rfl⟩
    cases hd₁
    have hrows := ih.dry d hd hlast kind
    cases kind <;> exact hrows hdry
  | @shutOwn _ d hq₀ hd hdone hown =>
    cases hq.symm.trans hq₀
    cases hq'
    refine ⟨fun d₁ hd₁ => (nomatch hd₁), ?_, fun hp => .inl (ih.closed_of_done hh hd hdone hp)⟩
    by_cases hnil : g.passes = []
    · exact (ih.moving_of_done hb hh hc hd hdone (.inr hnil)).imp id .inl
    · exact .inr (.inr (.inl hnil))
  | @shutLast _ d b l hq₀ hd hdone hlast hp =>
    cases hq.symm.trans hq₀
    cases hq'
    exact ⟨fun d₁ hd₁ => (nomatch hd₁),
      (ih.moving_of_done hb hh hc hd hdone (.inl hlast)).imp id .inl,
      fun hp => .inl (ih.closed_of_done hh hd hdone hp)⟩

theorem Ambient.delivers (h : Ambient W r g v g' v') (hq : v.request = some q)
    (hq' : v'.request = some q') (ih : Delivers g v q) : Delivers g' v' q' := by
  cases h with
  | create settings model hnone => cases hnone.symm.trans hq
  | adjust hq₀ =>
    cases hq.symm.trans hq₀
    cases hq'
    exact ih.around (.of_eq rfl rfl rfl rfl) rfl rfl .inl
  | _ =>
    cases hq.symm.trans hq'
    exact ih.around (.of_eq rfl rfl rfl rfl) rfl rfl .inl

theorem Visit.delivers (h : Visit r g v g' v') (hq : v.request = some q)
    (hq' : v'.request = some q') (hf : q.flushing = true → g.delivery ≠ none)
    (ih : Delivers g v q) : Delivers g' v' q' := by
  cases h with
  | enter hq₀ | leave hq₀ | ping hq₀ =>
    cases hq.symm.trans hq₀
    cases hq'
    exact ih.around (.of_eq rfl rfl rfl rfl) rfl rfl .inl
  | pop hq₀ =>
    cases hq.symm.trans hq₀
    cases hq'
    exact ih.around (.of_eq rfl rfl rfl rfl) rfl rfl fun _ =>
      .inl (.inr (Nat.add_pos_right _ (Nat.succ_pos _)))
  | ask =>
    cases hq.symm.trans hq'
    exact ih.around (.of_eq rfl rfl rfl rfl) rfl rfl fun _ =>
      .inl (.inr (Nat.add_pos_right _ (Nat.succ_pos _)))
  | start hq₀ | firstPing hq₀ =>
    cases hq.symm.trans hq₀
    cases hq'
    exact ih.around (.of_eq rfl rfl rfl rfl) rfl rfl fun _ =>
      .inl (.inr (Nat.add_pos_left (Nat.succ_pos _) _))
  | flowAgain hq₀ hflushing =>
    cases hq.symm.trans hq₀
    cases hq'
    exact ih.around (.of_eq rfl rfl rfl rfl) rfl rfl fun _ => .inr (hf hflushing)
  | lostPing =>
    cases hq.symm.trans hq'
    exact ih.around (.of_eq rfl rfl rfl rfl) rfl rfl .inl

/-- A pass queues rows, and leaves none behind that cannot wait. -/
theorem Working.delivers (h : Working W r g v g' v') (hq : v.request = some q)
    (hq' : v'.request = some q') (hlone : ∀ {b l}, g.passes = b :: l → l = [])
    (hbegin : ∀ n, v'.log = .began r n :: v.log → g.delivery = none) (ho : Ordered g)
    (ih : Delivers g v q) : Delivers g' v' q' := by
  cases h with
  | begin hq₀ =>
    cases hq.symm.trans hq₀
    cases hq'
    have hnone := hbegin _ rfl
    exact ⟨fun d hd => (nomatch hnone.symm.trans hd), .inr (.inr (.inl (by simp))), ih.finished⟩
  | skip hb hs | attempt hb hs =>
    cases hq.symm.trans hq'
    obtain rfl := hlone hb
    exact ih.work ho hb (.of_batch hs) rfl rfl id rfl
  | leave hb ha hcur =>
    cases hq.symm.trans hq'
    obtain rfl := hlone hb
    exact ih.work ho hb (.of_current hcur) rfl rfl id rfl
  | value hb ha | layer hb ha | wait hb ha =>
    cases hq.symm.trans hq'
    obtain rfl := hlone hb
    exact ih.work ho hb (.of_attempt ha) rfl rfl id rfl
  | memo hb ha hv hq₀ =>
    cases hq.symm.trans hq₀
    cases hq'
    obtain rfl := hlone hb
    exact ih.work ho hb (.of_attempt ha) hb rfl id rfl
  | defer query hb ha hv hq₀ | report e hb ha hv hq₀ =>
    cases hq.symm.trans hq₀
    cases hq'
    obtain rfl := hlone hb
    exact ih.work ho hb (.of_attempt ha) rfl rfl (fun hp => nomatch hp) rfl
  | complete hb ha hv hw hq₀ | fail hb ha hw hq₀ =>
    cases hq.symm.trans hq₀
    cases hq'
    obtain rfl := hlone hb
    exact ih.work ho hb (.of_attempt ha) rfl rfl id rfl
  | @finish _ b l hb hs ha hq₀ hd hend =>
    cases hq.symm.trans hq'
    cases hq.symm.trans hq₀
    have hin := ho.inFlush b (by simp [hb])
    have hnone : g.delivery = none := by
      rwa [hin, Option.isSome_eq_false_iff, Option.isNone_iff_eq_none] at hd
    refine ⟨fun d hd' => (nomatch hnone.symm.trans hd'), .inr (.inl (.inl ?_)), ih.finished⟩
    exact hend.resolve_right fun hflush => nomatch hin.symm.trans hflush

theorem Created.delivers (h : Created r g v) (settings : RequestSettings κ) (model : Model κ) :
    Delivers g v (.ofModel settings model) :=
  ⟨fun _ hd => (nomatch h.delivery.symm.trans hd), .inl rfl, fun hp => nomatch hp⟩

/-- With a destination that does not fail and a flow that is resumed in time, no row is left
behind. -/
theorem Course.delivers (h : Course W r g v) (hcalm : v.Calm r) (hsound : v.Sound)
    (htimely : v.Timely r) (hq : v.request = some q) : Delivers g v q := by
  refine Course.induct (P := fun g v q => v.Calm r → v.Sound → v.Timely r → Delivers g v q)
    (fun settings model hnew _ _ _ => hnew.delivers settings model) ?_ h hq hcalm hsound htimely
  intro g v g' v' q q' hc ht hq hq' ih hcalm hsound htimely
  have hbefore := ht.calm hcalm
  have hsound' := ht.sound hsound
  have htimely' := ht.timely htimely
  have ih := ih hbefore hsound' htimely'
  have hflushing := hc.coherent.flushing q hq
  have hbegin := fun n => hc.delivery_of_begin ht hcalm (n := n)
  cases ht with
  | ambient h => exact h.delivers hq hq' ih
  | visit h => exact h.delivers hq hq' hflushing.mp ih
  | flushing h =>
    refine h.delivers hq hq' (fun hfalse => ?_) (hc.balanced (hc.apart hbefore) hq)
      (hc.halts hbefore hsound' htimely' hq) (hc.closes hq) ih
    exact Classical.not_not.mp fun hne => nomatch hfalse.symm.trans (hflushing.mpr hne)
  | working h => exact h.delivers hq hq' (hc.passes_eq hbefore) hbegin (hc.ordered hbefore) ih

end TreeStream

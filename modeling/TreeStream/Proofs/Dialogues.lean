import TreeStream.Proofs.Ordering

/-!
# What the destination sees

A destination sees batches, one after the other: it is told that a batch begins, takes rows, is told
that the batch is complete and may be sent on, and in the end it is closed. A reader who knows these
rules only and follows a log from its beginning never finds a call out of place, whatever the
destination answers and whatever it calls itself.
-/

namespace TreeStream

variable {κ σ : Type} {W : World κ} {r : RequestId} {g g' : Hand κ} {v v' : View κ}
  {q q' : Request κ}

/-! ## The rules -/

/-- How far the batch is that the destination sees. -/
inductive DialogueStage where
  | idle
  | writing
  | spoiled
  | completed
  | flushed
  | closed
  deriving DecidableEq

namespace DialogueStage

/-- What the destination may be asked, given the number of pending rows. -/
def allows : DialogueStage → SinkCall → Nat → Bool
  | idle, .begin, _ => true
  | writing, .write _, _ => true
  | writing, .complete, _ => true
  | spoiled, .complete, _ => true
  | completed, .flush, _ => true
  | flushed, .begin, pending => pending != 0
  | flushed, .close, pending => pending == 0
  | _, _, _ => false

def after (stage : DialogueStage) : SinkCall → Bool → DialogueStage
  | .begin, true => writing
  | .write _, true => stage
  | .write _, false => spoiled
  | .complete, true => if stage = writing then completed else idle
  | .flush, true => flushed
  | .close, _ => closed
  | _, false => idle

/-- No batch is under way, and none follows once the destination is closed. A batch that was flushed
is over only if rows are still pending, for the destination is to be closed otherwise. -/
def Rests (stage : DialogueStage) (isClosed : Bool) (pending : Nat) : Prop :=
  if isClosed then stage = closed else stage = idle ∨ stage = flushed ∧ pending ≠ 0

theorem Rests.mono {stage : DialogueStage} {isClosed : Bool} {pending pending' : Nat}
    (h : stage.Rests isClosed pending) (hle : pending ≤ pending') :
    stage.Rests isClosed pending' := by
  unfold Rests at h ⊢
  split_ifs at h ⊢
  · exact h
  · rcases h with hidle | ⟨hflushed, hne⟩
    · exact .inl hidle
    · exact .inr ⟨hflushed, by omega⟩

end DialogueStage

/-- What a reader of a log knows: the stage, and the call that waits for its answer. -/
structure Dialogue where
  stage : DialogueStage := .idle
  asked : Option SinkCall := none

namespace Dialogue

/-- One event; nothing if it breaks the rules. -/
def step (t : Dialogue) : Event → Option Dialogue
  | .calling _ c pending =>
    if t.asked = none ∧ t.stage.allows c pending = true then some { t with asked := some c }
    else none
  | .called _ c answer =>
    if t.asked = some c then some { stage := t.stage.after c answer.isOk } else none
  | _ => some t

def read : List Event → Option Dialogue
  | [] => some {}
  | e :: log => (read log).bind fun t => t.step e

end Dialogue

def Event.isHeard : Event → Bool
  | calling _ _ _ => true
  | called _ _ _ => true
  | _ => false

namespace Dialogue

theorem step_unheard (t : Dialogue) {e : Event} (he : e.isHeard = false) : t.step e = some t := by
  cases e <;> first | rfl | cases he

theorem read_cons {log : List Event} {t : Dialogue} (h : read log = some t) (e : Event) :
    read (e :: log) = t.step e := by
  rw [read, h, Option.bind_some]

theorem read_unheard {log events : List Event} {t : Dialogue} (h : read log = some t)
    (he : ∀ e ∈ events, e.isHeard = false) : read (events ++ log) = some t := by
  induction events with
  | nil => exact h
  | cons e events ih =>
    have hrest := ih fun e he' => he e (List.mem_cons_of_mem _ he')
    rw [List.cons_append, read_cons hrest, step_unheard t (he e List.mem_cons_self)]

def Ends (t : Dialogue) : Prop := (t.stage = .closed ∧ t.asked = none) ∨ t.asked = some .close

theorem Ends.step {t t' : Dialogue} (h : t.Ends) {e : Event} (he : t.step e = some t') :
    t'.Ends ∧ ∀ r c n, e ≠ .calling r c n := by
  cases e with
  | calling r c n =>
    obtain ⟨⟨hasked, hallows⟩, -⟩ := Option.ite_none_right_eq_some.mp he
    rcases h with ⟨hclosed, -⟩ | hclose
    · rw [hclosed] at hallows
      cases hallows
    · cases hasked.symm.trans hclose
  | called r c answer =>
    obtain ⟨hasked, hdone⟩ := Option.ite_none_right_eq_some.mp he
    constructor
    · rcases h with ⟨-, hnone⟩ | hclose
      · cases hasked.symm.trans hnone
      · cases hasked.symm.trans hclose
        cases hdone
        exact .inl ⟨rfl, rfl⟩
    · intro r' c' n heq
      cases heq
  | _ =>
    cases he
    constructor
    · exact h
    · intro r' c' n heq
      cases heq

/-- The destination is closed only when no row is pending, and it is asked for nothing after. -/
theorem last_close {later earlier : List Event} {n : Nat} {t : Dialogue}
    (h : read (later ++ .calling r .close n :: earlier) = some t) :
    n = 0 ∧ t.Ends ∧ ∀ r' c m, Event.calling r' c m ∉ later := by
  induction later generalizing t with
  | nil =>
    obtain ⟨t₀, -, hstep⟩ := Option.bind_eq_some_iff.mp h
    obtain ⟨⟨-, hallows⟩, hasked⟩ := Option.ite_none_right_eq_some.mp hstep
    cases hasked
    refine ⟨?_, .inr rfl, fun _ _ _ hmem => by cases hmem⟩
    cases hstage : t₀.stage <;> rw [hstage] at hallows <;> first | cases hallows | skip
    exact beq_iff_eq.mp hallows
  | cons e later ih =>
    obtain ⟨t₁, hread, hstep⟩ := Option.bind_eq_some_iff.mp h
    obtain ⟨hn, hends, hnone⟩ := ih hread
    obtain ⟨hends', hne⟩ := hends.step hstep
    refine ⟨hn, hends', ?_⟩
    intro r' c m hmem
    rcases List.mem_cons.mp hmem with heq | hmem
    · exact hne r' c m heq.symm
    · exact hnone r' c m hmem

end Dialogue

/-! ## Courses keep to the rules -/

/-- The destination knows as much as the flush under way. -/
def Dialogue.Suits (t : Dialogue) (isClosed : Bool) (pending : Nat) : Option Delivery → Prop
  | none => t.asked = none ∧ t.stage.Rests isClosed pending
  | some d => t.asked = d.asked ∧
    match d.stage with
    | .fresh => isClosed = d.idle ∧ t.stage.Rests isClosed pending
    | .writing => isClosed = false ∧ t.stage = .writing
    | .spoiled => isClosed = false ∧ t.stage = .spoiled
    | .completed => isClosed = false ∧ t.stage = .completed
    | .flushed => isClosed = d.closing ∧ t.stage = .flushed
    | .over => t.stage.Rests isClosed pending

theorem Dialogue.Suits.mono {t : Dialogue} {isClosed : Bool} {pending pending' : Nat}
    {delivery : Option Delivery} (h : t.Suits isClosed pending delivery)
    (hle : pending ≤ pending') : t.Suits isClosed pending' delivery := by
  cases delivery with
  | none => exact ⟨h.1, h.2.mono hle⟩
  | some d =>
    obtain ⟨hasked, hstage⟩ := h
    refine ⟨hasked, ?_⟩
    cases hd : d.stage with
    | fresh =>
      rw [hd] at hstage
      exact ⟨hstage.1, hstage.2.mono hle⟩
    | writing | spoiled | completed | flushed =>
      rw [hd] at hstage
      exact hstage
    | _ =>
      rw [hd] at hstage
      exact hstage.mono hle

/-- The log keeps to the rules so far. -/
def Talks (g : Hand κ) (log : List Event) (q : Request κ) : Prop :=
  ∃ t, Dialogue.read log = some t ∧ t.Suits q.closed q.pending g.delivery

theorem Talks.open {log : List Event} (events : List Event) (h : Talks g log q)
    (hnone : g.delivery = none)
    {ofPass : Bool} (hd : g'.delivery = some { ofPass := ofPass, idle := q.closed })
    (hq : q'.closed = q.closed) (hp : q'.pending = q.pending)
    (he : ∀ e ∈ events, e.isHeard = false) : Talks g' (events ++ log) q' := by
  obtain ⟨t, hread, hsuits⟩ := h
  refine ⟨t, Dialogue.read_unheard hread he, ?_⟩
  rw [hnone] at hsuits
  rw [hd, hq, hp]
  exact ⟨hsuits.1, rfl, hsuits.2⟩

/-- A flush goes on, and the destination has not heard of it. -/
theorem Talks.move {log : List Event} (h : Talks g log q) {d d' : Delivery}
    (hd : g.delivery = some d) (hd' : g'.delivery = some d') (hstage : d'.stage = d.stage)
    (hasked : d'.asked = d.asked) (hidle : d'.idle = d.idle) (hclosing : d'.closing = d.closing)
    (hq : q'.closed = q.closed) (hp : q'.pending = q.pending) : Talks g' log q' := by
  obtain ⟨t, hread, hsuits⟩ := h
  refine ⟨t, hread, ?_⟩
  rw [hd] at hsuits
  rw [hd', hq, hp]
  simp only [Dialogue.Suits] at hsuits ⊢
  rw [hstage, hasked, hidle, hclosing]
  exact hsuits

/-- A flush that is over leaves the destination between two batches, or closed. -/
theorem Dialogue.Suits.done {t : Dialogue} {isClosed : Bool} {pending : Nat} {d : Delivery}
    (h : t.Suits isClosed pending (some d)) (hd : d.Done) : t.Suits isClosed pending none := by
  obtain ⟨hasked, hstage⟩ := h
  refine ⟨hasked.trans hd.clear.asked, ?_⟩
  rcases hd.why with ⟨-, hs⟩ | ⟨hs, -⟩ <;> rw [hs] at hstage
  · exact hstage.2
  · exact hstage

/-- The destination can be asked what the flush is about to ask it. -/
theorem Dialogue.Suits.allows {t : Dialogue} {isClosed : Bool} {d : Delivery} {c : SinkCall}
    {pending : Nat} (h : t.Suits isClosed pending (some d)) (hc : d.Expects c)
    (hp : c = .close → pending = 0) : t.asked = none ∧ t.stage.allows c pending = true := by
  obtain ⟨hasked, hstage⟩ := h
  refine ⟨hasked.trans hc.asked, ?_⟩
  cases c with
  | begin =>
    rw [hc.2.1, hc.2.2] at hstage
    obtain ⟨rfl, hidle | ⟨hflushed, hne⟩⟩ := hstage
    · rw [hidle]
      rfl
    · rw [hflushed]
      exact bne_iff_ne.mpr hne
  | write row =>
    rw [hc.2.2.2.2] at hstage
    rw [hstage.2]
    rfl
  | complete =>
    rcases hc.2 with hs | hs <;> rw [hs] at hstage <;> rw [hstage.2] <;> rfl
  | flush =>
    rw [hc.2] at hstage
    rw [hstage.2]
    rfl
  | close =>
    rw [hc.2.2.2.2] at hstage
    rw [hstage.2, hp rfl]
    rfl

theorem Dialogue.Suits.answered {t : Dialogue} {isClosed : Bool} {pending : Nat} {d : Delivery}
    {c : SinkCall} (h : t.Suits isClosed pending (some { d with asked := some c }))
    (hc : d.Expects c) (answer : Except RenderError Bool) :
    Dialogue.Suits { stage := t.stage.after c answer.isOk } isClosed pending
      (some (d.called c answer)) := by
  obtain ⟨-, hstage⟩ := h
  refine ⟨rfl, ?_⟩
  simp only [Delivery.called] at hstage ⊢
  cases c with
  | begin =>
    rw [hc.2.1, hc.2.2] at hstage
    obtain ⟨rfl, -⟩ := hstage
    cases answer with
    | error e => exact .inl rfl
    | ok w => exact ⟨rfl, rfl⟩
  | write row =>
    rw [hc.2.2.2.2] at hstage ⊢
    obtain ⟨rfl, hwriting⟩ := hstage
    cases answer with
    | error e => exact ⟨rfl, rfl⟩
    | ok w => exact ⟨rfl, hwriting⟩
  | complete =>
    rcases hc.2 with hs | hs <;> rw [hs] at hstage ⊢ <;> obtain ⟨rfl, ht⟩ := hstage <;>
      rw [ht] <;> cases answer <;> first | exact .inl rfl | exact ⟨rfl, rfl⟩
  | flush =>
    rw [hc.2] at hstage
    obtain ⟨rfl, -⟩ := hstage
    cases answer with
    | error e => exact .inl rfl
    | ok w => exact ⟨rfl, rfl⟩
  | close =>
    rw [hc.2.2.2.2] at hstage
    obtain ⟨rfl, -⟩ := hstage
    rw [hc.closing]
    cases answer <;> rfl

theorem Flushing.talks (h : Flushing r g v g' v') (hq : v.request = some q)
    (hq' : v'.request = some q') (hf : q.flushing = true ↔ g.delivery ≠ none)
    (ih : Talks g v.log q) : Talks g' v'.log q' := by
  have hidle : q.flushing = false → g.delivery = none := Hand.delivery_eq_none hf
  cases h with
  | openOwn hq₀ hfalse =>
    cases hq.symm.trans hq₀
    cases hq'
    exact ih.open [_] (hidle hfalse) rfl rfl rfl (by simp [Event.isHeard])
  | openLast hq₀ hfalse =>
    cases hq.symm.trans hq₀
    cases hq'
    exact ih.open [] (hidle hfalse) rfl rfl rfl (by simp)
  | take kind hq₀ hd hn hs =>
    cases hq.symm.trans hq₀
    cases hq'
    obtain ⟨t, hread, hsuits⟩ := ih
    refine ⟨t, hread, ?_⟩
    rw [hd] at hsuits
    simp only [Dialogue.Suits, hs] at hsuits ⊢
    cases kind <;> exact hsuits
  | runDry kind hq₀ hd =>
    cases hq.symm.trans hq'
    cases kind <;> exact ih.move hd rfl rfl rfl rfl rfl rfl rfl
  | calling c hq₀ hd hc hp =>
    cases hq.symm.trans hq₀
    cases hq.symm.trans hq'
    obtain ⟨t, hread, hsuits⟩ := ih
    rw [hd] at hsuits
    refine ⟨{ t with asked := some c }, ?_, rfl, hsuits.2⟩
    rw [Dialogue.read_cons hread]
    exact if_pos (hsuits.allows hc hp)
  | called c answer hd hc =>
    cases hq.symm.trans hq'
    obtain ⟨t, hread, hsuits⟩ := ih
    rw [hd] at hsuits
    refine ⟨{ stage := t.stage.after c answer.isOk }, ?_, hsuits.answered hc answer⟩
    rw [Dialogue.read_cons hread]
    exact if_pos hsuits.1
  | stop hq₀ hd =>
    cases hq.symm.trans hq₀
    cases hq'
    exact ih.move hd rfl rfl rfl rfl rfl rfl rfl
  | unfinished hq₀ hd hn hs hne =>
    cases hq.symm.trans hq₀
    cases hq.symm.trans hq'
    obtain ⟨t, hread, hsuits⟩ := ih
    rw [hd] at hsuits
    obtain ⟨hasked, hstage⟩ := hsuits
    rw [hs, hn.closing] at hstage
    refine ⟨t, hread, hasked, ?_⟩
    rw [hstage.1, hstage.2]
    exact .inr ⟨rfl, hne⟩
  | close hq₀ hd hn hs =>
    cases hq.symm.trans hq₀
    cases hq'
    obtain ⟨t, hread, hsuits⟩ := ih
    rw [hd] at hsuits
    obtain ⟨hasked, hstage⟩ := hsuits
    rw [hs] at hstage
    refine ⟨t, hread, hasked, ?_⟩
    rw [hs]
    exact ⟨rfl, hstage.2⟩
  | shutOwn hq₀ hd hdone | shutLast hq₀ hd hdone =>
    cases hq.symm.trans hq₀
    cases hq'
    obtain ⟨t, hread, hsuits⟩ := ih
    rw [hd] at hsuits
    exact ⟨t, hread, hsuits.done hdone⟩

/-- The rows of a kind that a log tells of, oldest first. -/
def Event.rowsTold (tells : Event → Option Row) (kind : RowKind) (log : List Event) : List Row :=
  (log.reverse.filterMap tells).filter fun row => row.kind = kind

def Event.completedRow? : Event → Option Row
  | completed _ row => some row
  | _ => none

/-- The row that the destination is asked to take. -/
def Event.offeredRow? : Event → Option Row
  | calling _ (.write row) _ => some row
  | _ => none

theorem Event.rowsTold_append (tells : Event → Option Row) (kind : RowKind)
    (events log : List Event) :
    rowsTold tells kind (events ++ log) = rowsTold tells kind log ++ rowsTold tells kind events := by
  simp [rowsTold]

theorem Event.IsAside.isHeard {e : Event} (h : e.IsAside) : e.isHeard = false := by
  cases e <;> first | rfl | exact h.elim

theorem Event.IsAside.completedRow? {e : Event} (h : e.IsAside) : e.completedRow? = none := by
  cases e <;> first | rfl | exact h.elim

theorem Event.offeredRow?_unheard {e : Event} (h : e.isHeard = false) : e.offeredRow? = none := by
  cases e <;> first | rfl | cases h

/-- What a turn other than one of a flush does for the destination: the flush stays where it is, no
pending row is lost, and the rows that are completed are queued. -/
structure Unheard (g : Hand κ) (q : Request κ) (g' : Hand κ) (q' : Request κ)
    (events : List Event) : Prop where
  delivery : g'.delivery = g.delivery
  closed : q'.closed = q.closed
  pending : q.pending ≤ q'.pending
  rows : ∀ kind, q'.rows kind = q.rows kind ++ Event.rowsTold Event.completedRow? kind events
  events : ∀ e ∈ events, e.isHeard = false

theorem Unheard.of_quiet {events : List Event} (hd : g'.delivery = g.delivery)
    (hclosed : q'.closed = q.closed) (hpending : q.pending ≤ q'.pending)
    (hm : q'.modelRows = q.modelRows) (he : q'.errorRows = q.errorRows)
    (hevents : ∀ e ∈ events, e.isHeard = false ∧ e.completedRow? = none) :
    Unheard g q g' q' events := by
  have hnone : events.reverse.filterMap Event.completedRow? = [] :=
    List.filterMap_eq_nil_iff.mpr fun e hmem => (hevents e (List.mem_reverse.mp hmem)).2
  refine ⟨hd, hclosed, hpending, fun kind => ?_, fun e hmem => (hevents e hmem).1⟩
  rw [Event.rowsTold, hnone, List.filter_nil, List.append_nil]
  cases kind
  · exact hm
  · exact he

theorem Ambient.unheard (h : Ambient W r g v g' v') (hq : v.request = some q)
    (hq' : v'.request = some q') : ∃ events, v'.log = events ++ v.log ∧ Unheard g q g' q' events := by
  have hd := h.hand_eq.2.1
  cases h with
  | create settings model hnone => cases hnone.symm.trans hq
  | adjust hq₀ =>
    cases hq.symm.trans hq₀
    cases hq'
    exact ⟨[], rfl, .of_quiet hd rfl .refl rfl rfl (by simp)⟩
  | say e he =>
    cases hq.symm.trans hq'
    exact ⟨[e], rfl, .of_quiet hd rfl .refl rfl rfl (by simp [he.isHeard, he.completedRow?])⟩
  | _ =>
    cases hq.symm.trans hq'
    exact ⟨[], rfl, .of_quiet hd rfl .refl rfl rfl (by simp)⟩

theorem Visit.unheard (h : Visit r g v g' v') (hq : v.request = some q)
    (hq' : v'.request = some q') : ∃ events, v'.log = events ++ v.log ∧ Unheard g q g' q' events := by
  have hd := h.hand_eq.2
  cases h with
  | ask | lostPing =>
    cases hq.symm.trans hq'
    exact ⟨[], rfl, .of_quiet hd rfl .refl rfl rfl (by simp)⟩
  | enter hq₀ | leave hq₀ | pop hq₀ =>
    cases hq.symm.trans hq₀
    cases hq'
    exact ⟨[], rfl, .of_quiet hd rfl .refl rfl rfl (by simp)⟩
  | start hq₀ | firstPing hq₀ =>
    cases hq.symm.trans hq₀
    cases hq'
    exact ⟨[_, _], rfl, .of_quiet hd rfl .refl rfl rfl (by simp [Event.isHeard, Event.completedRow?])⟩
  | flowAgain hq₀ | ping hq₀ =>
    cases hq.symm.trans hq₀
    cases hq'
    exact ⟨[_], rfl, .of_quiet hd rfl .refl rfl rfl (by simp [Event.isHeard, Event.completedRow?])⟩

theorem Working.unheard (h : Working W r g v g' v') (hq : v.request = some q)
    (hq' : v'.request = some q') : ∃ events, v'.log = events ++ v.log ∧ Unheard g q g' q' events := by
  cases h with
  | value | layer | wait | finish =>
    cases hq.symm.trans hq'
    exact ⟨[], rfl, .of_quiet rfl rfl .refl rfl rfl (by simp)⟩
  | skip | attempt | leave =>
    cases hq.symm.trans hq'
    exact ⟨[_], rfl, .of_quiet rfl rfl .refl rfl rfl (by simp [Event.isHeard, Event.completedRow?])⟩
  | memo _ _ _ hq₀ =>
    cases hq.symm.trans hq₀
    cases hq'
    exact ⟨[], rfl, .of_quiet rfl rfl .refl rfl rfl (by simp)⟩
  | begin hq₀ | defer _ _ _ _ hq₀ =>
    cases hq.symm.trans hq₀
    cases hq'
    refine ⟨[_], rfl, .of_quiet rfl rfl (by simp) rfl rfl ?_⟩
    simp [Event.isHeard, Event.completedRow?]
  | report e _ _ _ hq₀ =>
    cases hq.symm.trans hq₀
    cases hq'
    refine ⟨[_, _], rfl, rfl, rfl, by simp, fun kind => ?_, by simp [Event.isHeard]⟩
    cases kind <;>
      simp [Request.rows, Event.rowsTold, List.filterMap_cons, Event.completedRow?, Row.ofError]
  | complete _ _ _ _ hq₀ | fail _ _ _ hq₀ =>
    cases hq.symm.trans hq₀
    cases hq'
    refine ⟨[_], rfl, rfl, rfl, .refl, fun kind => ?_, by simp [Event.isHeard]⟩
    cases kind <;>
      simp [Request.rows, Event.rowsTold, Event.completedRow?, Row.ofError, Row.ofModel]

theorem Turn.flushing_or_unheard (ht : Turn W r g v g' v') (hq : v.request = some q)
    (hq' : v'.request = some q') :
    Flushing r g v g' v' ∨ ∃ events, v'.log = events ++ v.log ∧ Unheard g q g' q' events := by
  cases ht with
  | flushing h => exact .inl h
  | ambient h => exact .inr (h.unheard hq hq')
  | visit h => exact .inr (h.unheard hq hq')
  | working h => exact .inr (h.unheard hq hq')

theorem Turn.talks (ht : Turn W r g v g' v') (hq : v.request = some q) (hq' : v'.request = some q')
    (hf : q.flushing = true ↔ g.delivery ≠ none) (ih : Talks g v.log q) : Talks g' v'.log q' := by
  rcases ht.flushing_or_unheard hq hq' with h | ⟨events, hlog, hu⟩
  · exact h.talks hq hq' hf ih
  · obtain ⟨t, hread, hsuits⟩ := ih
    rw [hlog]
    refine ⟨t, Dialogue.read_unheard hread hu.events, ?_⟩
    rw [hu.delivery, hu.closed]
    exact hsuits.mono hu.pending

theorem Created.talks (h : Created r g v) (settings : RequestSettings κ) (model : Model κ) :
    Talks g v.log (.ofModel settings model) := by
  obtain ⟨log, hlog, hasides⟩ := h.log
  refine ⟨{}, ?_, ?_⟩
  · have hunheard : ∀ e ∈ v.log, e.isHeard = false := by
      intro e he
      rw [hlog] at he
      rcases List.mem_cons.mp he with rfl | he
      · rfl
      · exact (hasides e he).isHeard
    rw [← List.append_nil v.log]
    exact Dialogue.read_unheard rfl hunheard
  · rw [h.delivery]
    exact ⟨rfl, .inl rfl⟩

/-- The destination is only asked for what the rules allow. -/
theorem Course.talks (h : Course W r g v) (hq : v.request = some q) : Talks g v.log q :=
  Course.induct (fun settings model hnew => hnew.talks settings model)
    (fun hc ht hq hq' ih => ht.talks hq hq' (hc.coherent.flushing _ hq) ih) h hq

/-! ## Each row is offered once -/

/-- The row that was taken from its queue and that the destination has not heard of. -/
def Hand.taken (g : Hand κ) : List Row :=
  match g.delivery with
  | some d => if d.asked = none then d.row.toList else []
  | none => []

theorem taken_of_delivery {d : Delivery} (hd : g.delivery = some d) :
    g.taken = if d.asked = none then d.row.toList else [] := by
  rw [Hand.taken, hd]

/-- The rows of a kind were completed in the order in which the destination is asked to take
them. -/
def Serves (g : Hand κ) (log : List Event) (q : Request κ) : Prop :=
  ∀ kind, Event.rowsTold Event.completedRow? kind log =
    Event.rowsTold Event.offeredRow? kind log ++ g.taken.filter (fun row => row.kind = kind) ++
      q.rows kind

theorem Event.rowsTold_quiet (tells : Event → Option Row) (kind : RowKind) {e : Event}
    (h : tells e = none) (log : List Event) :
    rowsTold tells kind (e :: log) = rowsTold tells kind log := by
  simp [rowsTold, h]

theorem Serves.kind (h : Serves g v.log q) {kind : RowKind} {row : Row} (hrow : row ∈ q.rows kind) :
    row.kind = kind := by
  have hmem : row ∈ Event.rowsTold Event.completedRow? kind v.log := by
    rw [h kind]
    exact List.mem_append_right _ hrow
  simpa using (List.mem_filter.mp hmem).2

theorem Serves.unheard {log events : List Event} (h : Serves g log q)
    (hu : Unheard g q g' q' events) : Serves g' (events ++ log) q' := by
  intro kind
  have hoffered : Event.rowsTold Event.offeredRow? kind events = [] := by
    have hnone : events.reverse.filterMap Event.offeredRow? = [] :=
      List.filterMap_eq_nil_iff.mpr fun e hmem =>
        Event.offeredRow?_unheard (hu.events e (List.mem_reverse.mp hmem))
    rw [Event.rowsTold, hnone, List.filter_nil]
  have htaken : g'.taken = g.taken := by rw [Hand.taken, hu.delivery, Hand.taken]
  rw [Event.rowsTold_append, Event.rowsTold_append, h kind, hoffered, htaken, hu.rows kind]
  simp only [List.append_nil, List.append_assoc]

theorem Serves.move {log : List Event} (h : Serves g log q) (htaken : g'.taken = g.taken)
    (hrows : ∀ kind, q'.rows kind = q.rows kind) : Serves g' log q' := by
  intro kind
  rw [htaken, hrows kind]
  exact h kind

theorem Serves.tell {log : List Event} (h : Serves g log q) {e : Event}
    (hc : e.completedRow? = none) (ho : e.offeredRow? = none) : Serves g (e :: log) q := by
  intro kind
  rw [Event.rowsTold_quiet _ _ hc, Event.rowsTold_quiet _ _ ho]
  exact h kind

theorem Request.rows_setRows (q : Request κ) (kind kind' : RowKind) (rows : List Row) :
    (q.setRows kind rows).rows kind' = if kind' = kind then rows else q.rows kind' := by
  cases kind <;> cases kind' <;> rfl

theorem Delivery.asked_runDry (d : Delivery) (kind : RowKind) :
    (d.runDry kind).asked = d.asked := by
  cases kind <;> rfl

theorem Flushing.serves (h : Flushing r g v g' v') (hq : v.request = some q)
    (hq' : v'.request = some q') (hf : q.flushing = true ↔ g.delivery ≠ none)
    (ih : Serves g v.log q) : Serves g' v'.log q' := by
  have hidle : q.flushing = false → g.taken = [] := by
    intro hfalse
    rw [Hand.taken, Hand.delivery_eq_none hf hfalse]
  cases h with
  | openOwn hq₀ hfalse =>
    cases hq.symm.trans hq₀
    cases hq'
    refine Serves.tell (e := .flowed r false) ?_ rfl rfl
    exact ih.move (hidle hfalse).symm fun kind => by cases kind <;> rfl
  | openLast hq₀ hfalse =>
    cases hq.symm.trans hq₀
    cases hq'
    exact ih.move (hidle hfalse).symm fun kind => by cases kind <;> rfl
  | @take _ d row rest kind hq₀ hd hn hs hd' hr =>
    cases hq.symm.trans hq₀
    cases hq'
    intro kind'
    have hkind : row.kind = kind := ih.kind (by rw [hr]; exact List.mem_cons_self)
    have hbefore : g.taken = [] := by
      rw [taken_of_delivery hd, hn.row]
      exact ite_self _
    have hafter : Hand.taken { g with delivery := some { d with row := some row } } = [row] := by
      rw [taken_of_delivery rfl]
      exact if_pos hn.asked
    have hrows : Request.rows { q.setRows kind rest with pending := q.pending - 1 } kind' =
        if kind' = kind then rest else q.rows kind' := by
      rw [← Request.rows_setRows]
      cases kind' <;> rfl
    rw [ih kind', hbefore, hafter, hrows]
    by_cases he : kind' = kind
    · rw [he, hr]
      simp [hkind]
    · have hne : ¬ row.kind = kind' := fun hrow => he (hrow.symm.trans hkind)
      simp [he, hne]
  | runDry kind hq₀ hd =>
    cases hq.symm.trans hq'
    refine ih.move ?_ fun _ => rfl
    rw [taken_of_delivery hd, taken_of_delivery rfl, Delivery.row_runDry, Delivery.asked_runDry]
  | @calling _ d c hq₀ hd hc =>
    cases hq.symm.trans hq'
    have htaken : g.taken = c.row?.toList := by
      rw [taken_of_delivery hd, if_pos hc.asked, hc.row]
    have hafter : Hand.taken { g with delivery := some { d with asked := some c } } = [] := by
      rw [taken_of_delivery rfl]
      exact if_neg (fun hn => by cases hn)
    intro kind
    have hold := ih kind
    rw [htaken] at hold
    rw [Event.rowsTold_quiet _ _ rfl, hold, hafter]
    cases c <;> simp [Event.rowsTold, Event.offeredRow?, SinkCall.row?]
  | @called d c answer hd hc =>
    cases hq.symm.trans hq'
    refine Serves.tell (e := .called r c answer) ?_ rfl rfl
    refine ih.move ?_ fun _ => rfl
    rw [taken_of_delivery hd, taken_of_delivery rfl]
    exact (ite_self _).trans (if_neg fun hn => by cases hn).symm
  | stop hq₀ hd =>
    cases hq.symm.trans hq₀
    cases hq'
    refine ih.move ?_ fun kind => by cases kind <;> rfl
    rw [taken_of_delivery hd, taken_of_delivery rfl]
  | unfinished hq₀ hd =>
    cases hq.symm.trans hq'
    refine ih.move ?_ fun _ => rfl
    rw [taken_of_delivery hd, taken_of_delivery rfl]
  | close hq₀ hd =>
    cases hq.symm.trans hq₀
    cases hq'
    refine ih.move ?_ fun kind => by cases kind <;> rfl
    rw [taken_of_delivery hd, taken_of_delivery rfl]
  | shutOwn hq₀ hd hdone | shutLast hq₀ hd hdone =>
    cases hq.symm.trans hq₀
    cases hq'
    refine ih.move ?_ fun kind => by cases kind <;> rfl
    rw [taken_of_delivery hd, hdone.clear.row]
    exact (ite_self _).symm

theorem Turn.serves (ht : Turn W r g v g' v') (hq : v.request = some q)
    (hq' : v'.request = some q') (hf : q.flushing = true ↔ g.delivery ≠ none)
    (ih : Serves g v.log q) : Serves g' v'.log q' := by
  rcases ht.flushing_or_unheard hq hq' with h | ⟨events, hlog, hu⟩
  · exact h.serves hq hq' hf ih
  · rw [hlog]
    exact ih.unheard hu

theorem Created.serves (h : Created r g v) (settings : RequestSettings κ) (model : Model κ) :
    Serves g v.log (.ofModel settings model) := by
  obtain ⟨log, hlog, hasides⟩ := h.log
  intro kind
  have htold : ∀ tells : Event → Option Row, (∀ e : Event, e.IsAside → tells e = none) →
      tells (.issued r (RowId.ofNat 0)) = none → Event.rowsTold tells kind v.log = [] := by
    intro tells hquiet hfirst
    have hnone : v.log.reverse.filterMap tells = [] := by
      refine List.filterMap_eq_nil_iff.mpr fun e he => ?_
      rw [List.mem_reverse, hlog] at he
      rcases List.mem_cons.mp he with rfl | he
      · exact hfirst
      · exact hquiet e (hasides e he)
    rw [Event.rowsTold, hnone, List.filter_nil]
  rw [htold _ (fun e he => he.completedRow?) rfl,
    htold _ (fun e he => Event.offeredRow?_unheard he.isHeard) rfl, Hand.taken, h.delivery]
  cases kind <;> rfl

/-- Each completed row is offered once, in the order of completion. -/
theorem Course.serves (h : Course W r g v) (hq : v.request = some q) : Serves g v.log q :=
  Course.induct (fun settings model hnew => hnew.serves settings model)
    (fun hc ht hq hq' ih => ht.serves hq hq' (hc.coherent.flushing _ hq) ih) h hq

/-! ## Failures -/

namespace Host

variable {user : UserCode κ σ} {call : (c : HostCall κ) → HostM κ σ c.Reply} {n : Nat}
  {h h' : Host κ σ}

/-- A flush of a request that is open marks the request, makes a batch and takes off the mark. -/
theorem run_flush (hq : h.requests[r.index]? = some q) (hf : q.flushing = false)
    (hclosed : q.closed = false) :
    flush user call r n h =
      (batch user call r n (h.update r fun q => { q with flushing := true })).map fun p =>
        (p.1, p.2.update r fun q => { q with flushing := false }) := by
  have hmarked := requests_update_self hq fun q => { q with flushing := true }
  rw [flush, run_bind, run_request hq, Option.bind_some, if_neg (by simp [hf]), run_bind,
    run_modifyRequest, Option.bind_some, run_bind, run_request hmarked, Option.bind_some,
    if_neg (by simp [hclosed]), run_bind]
  cases batch user call r n (h.update r fun q => { q with flushing := true }) with
  | none => rfl
  | some p => rfl

theorem run_flush_closed (hq : h.requests[r.index]? = some q) (hf : q.flushing = false)
    (hclosed : q.closed = true) :
    flush user call r n h =
      some (.ok (), (h.update r fun q => { q with flushing := true }).update r
        fun q => { q with flushing := false }) := by
  have hmarked := requests_update_self hq fun q => { q with flushing := true }
  rw [flush, run_bind, run_request hq, Option.bind_some, if_neg (by simp [hf]), run_bind,
    run_modifyRequest, Option.bind_some, run_bind, run_request hmarked, Option.bind_some,
    if_pos (by simp [hclosed])]
  rfl

/-- However a flush ends, a later one can run. -/
theorem flushing_of_flush (hq : h.requests[r.index]? = some q) (hf : q.flushing = false)
    {result : Except RenderError Unit} (hrun : flush user call r n h = some (result, h')) :
    ∀ q', h'.requests[r.index]? = some q' → q'.flushing = false := by
  have hmark (h₁ : Host κ σ) : ∀ q',
      (h₁.update r fun q => { q with flushing := false }).requests[r.index]? = some q' →
        q'.flushing = false := by
    intro q' hq'
    cases hq₁ : h₁.requests[r.index]? with
    | none =>
      rw [requests_update_missing hq₁] at hq'
      cases hq'
    | some q₁ =>
      rw [requests_update_self hq₁] at hq'
      cases hq'
      rfl
  cases hclosed : q.closed with
  | false =>
    rw [run_flush hq hf hclosed] at hrun
    obtain ⟨p, -, hp⟩ := Option.map_eq_some_iff.mp hrun
    cases hp
    exact hmark _
  | true =>
    rw [run_flush_closed hq hf hclosed] at hrun
    cases hrun
    exact hmark _

/-- If the batch cannot begin, the flush changes nothing but its mark. -/
theorem flush_of_begin_error (hq : h.requests[r.index]? = some q) (hf : q.flushing = false)
    (hclosed : q.closed = false) {e : RenderError} {h₁ : Host κ σ}
    (hbegin : callDestination user call r .begin
      (h.update r fun q => { q with flushing := true }) = some (.error e, h₁)) :
    flush user call r n h =
      some (.error e, h₁.update r fun q => { q with flushing := false }) := by
  rw [run_flush hq hf hclosed, batch, run_bind, hbegin]
  rfl

/-- A destination that refuses to begin and does nothing else leaves the request as it was. -/
theorem request_of_begin_error (hq : h.requests[r.index]? = some q) (hf : q.flushing = false)
    (hclosed : q.closed = false) {code : Code κ} (hguard : q.settings.guard = some code)
    {e : RenderError} (hfail : user.destination code .begin = .done (.fail e)) :
    ∃ h', flush user call r n h = some (.error e, h') ∧ h'.requests[r.index]? = some q := by
  have hmarked := requests_update_self hq fun q => { q with flushing := true }
  have htold : ((h.update r fun q => { q with flushing := true }).tell
      (.calling r .begin q.pending)).requests[r.index]? = some { q with flushing := true } := hmarked
  have hverdict : verdict user call r .begin
      ((h.update r fun q => { q with flushing := true }).tell (.calling r .begin q.pending)) =
        some (.fail e, (h.update r fun q => { q with flushing := true }).tell
          (.calling r .begin q.pending)) := by
    rw [verdict, run_bind, run_request htold, Option.bind_some]
    simp only [hguard, hfail]
    rfl
  have hbegin : callDestination user call r .begin
      (h.update r fun q => { q with flushing := true }) =
        some (.error e, ((h.update r fun q => { q with flushing := true }).tell
          (.calling r .begin q.pending)).tell (.called r .begin (.error e))) := by
    simp only [callDestination, run_bind, run_request hmarked, Option.bind_some, run_record,
      hverdict, run_pure]
  refine ⟨_, flush_of_begin_error hq hf hclosed hbegin, ?_⟩
  have hq₁ : (((h.update r fun q => { q with flushing := true }).tell
      (.calling r .begin q.pending)).tell (.called r .begin (.error e))).requests[r.index]? =
        some { q with flushing := true } := hmarked
  rw [requests_update_self hq₁, ← hf]

/-- Whatever components and destinations do, in every state that a session reaches: the calls that
the destination has seen keep to the rules, no call waits for its answer, and a batch is not left
open, nor a destination that was flushed when no row was pending. The destination was closed at most
once, when no row was pending, and was asked for nothing after. Each completed row was offered once
or waits in its queue, in the order of completion. No flush is marked as under way, and none ever is
once it has ended, with an error or without. If the destination refuses to begin, the flush leaves
everything as the destination has left it. -/
theorem destination_in_order (user : UserCode κ σ) {h : Host κ σ}
    (hr : Reachable user (fun _ => True) h) {r : RequestId} {q : Request κ}
    (hq : h.requests[r.index]? = some q) :
    (∃ t, Dialogue.read (h.view r).log = some t ∧ t.asked = none ∧
      t.stage.Rests q.closed q.pending) ∧
    (∀ later earlier pending, (h.view r).log = later ++ .calling r .close pending :: earlier →
      pending = 0 ∧ ∀ c m, .calling r c m ∉ later) ∧
    (∀ kind, Event.rowsTold Event.completedRow? kind (h.view r).log =
      Event.rowsTold Event.offeredRow? kind (h.view r).log ++ q.rows kind) ∧
    q.flushing = false ∧
    ∀ (call : (c : HostCall κ) → HostM κ σ c.Reply) (n : Nat) (h₀ : Host κ σ) (q₀ : Request κ),
      h₀.requests[r.index]? = some q₀ → q₀.flushing = false →
      (∀ result h', flush user call r n h₀ = some (result, h') →
        ∀ q', h'.requests[r.index]? = some q' → q'.flushing = false) ∧
      (∀ e h₁, q₀.closed = false →
        callDestination user call r .begin
          (h₀.update r fun q => { q with flushing := true }) = some (.error e, h₁) →
        flush user call r n h₀ =
          some (.error e, h₁.update r fun q => { q with flushing := false })) ∧
      (∀ code e, q₀.closed = false → q₀.settings.guard = some code →
        user.destination code .begin = .done (.fail e) →
        ∃ h', flush user call r n h₀ = some (.error e, h') ∧
          h'.requests[r.index]? = some q₀) := by
  have hcourse := hr.course_any r
  obtain ⟨t, hread, hsuits⟩ := hcourse.talks (q := q) hq
  refine ⟨⟨t, hread, hsuits⟩, ?_, ?_, ?_, ?_⟩
  · intro later earlier pending hlog
    rw [hlog] at hread
    obtain ⟨hpending, -, hnone⟩ := Dialogue.last_close hread
    exact ⟨hpending, hnone r⟩
  · intro kind
    have hserves := hcourse.serves (q := q) hq kind
    rwa [show Hand.taken ({} : Hand κ) = [] from rfl, List.filter_nil, List.append_nil] at hserves
  · by_contra hflushing
    have hbusy := (hcourse.coherent.flushing q hq).mp (Bool.not_eq_false _ ▸ hflushing)
    exact hbusy rfl
  · intro call n h₀ q₀ hq₀ hf₀
    refine ⟨fun result h' hrun => flushing_of_flush hq₀ hf₀ hrun, fun e h₁ hclosed hbegin => ?_,
      fun code e hclosed hguard hfail => ?_⟩
    · exact flush_of_begin_error hq₀ hf₀ hclosed hbegin
    · exact request_of_begin_error hq₀ hf₀ hclosed hguard hfail

end Host

/-- The late component with a destination that works on the request when a batch is complete, and
then fails. -/
def Late.refusing : UserCode Unit Unit where
  __ := Late.user
  destination _ c :=
    match c with
    | .complete => .call (.performWork ⟨0⟩) fun _ => .done (.fail (.io "full"))
    | _ => .done .pass

namespace Host

theorem destination_in_order_refusing :
    ∃ (h : Host Unit Unit) (q : Request Unit),
      Reachable Late.refusing (fun _ => True) h ∧ h.requests[0]? = some q ∧
      .called ⟨0⟩ .complete (.error (.io "full")) ∈ h.journal ∧
      ¬ h.Unnested ⟨0⟩ ∧
      (∃ t, Dialogue.read (h.view ⟨0⟩).log = some t ∧ t.asked = none ∧
        t.stage.Rests q.closed q.pending) ∧
      q.flushing = false := by
  obtain ⟨h, q, hr, hq, hp⟩ := exists_reachable (r := ⟨0⟩) (n := 20) Late.refusing
    Late.opening_makes
    (fun h q => decide (.called ⟨0⟩ .complete (.error (.io "full")) ∈ h.journal ∧
      ¬ h.Unnested ⟨0⟩))
    (by decide +kernel :
      (play Late.refusing () #[] Late.guarded Late.model Late.opening 20).any _ = true)
  obtain ⟨hfailed, hnested⟩ := of_decide_eq_true hp
  obtain ⟨hdialogue, -, -, hflushing, -⟩ := destination_in_order Late.refusing hr hq
  exact ⟨h, q, hr, hq, hfailed, hnested, hdialogue, hflushing⟩

end Host
end TreeStream

import Mathlib.Data.List.Nodup
import TreeStream.Proofs.Tries
import TreeStream.Proofs.Written

/-!
# What rows refer to

A row of a value refers to the rows that were issued while its segment was tried, in the order of
their ids. Followed through a course, each such id stays with a segment or with an error row, so no
reference dangles.
-/

namespace TreeStream

variable {κ σ : Type} {W : World κ} {r : RequestId} {g g' : Hand κ} {v v' : View κ}
  {q q' : Request κ}

/-! ## Turns that concern no reference -/

def PassState.progress (b : PassState κ) : Option (SegmentId × List (Issue κ)) :=
  b.attempt.map fun a => (a.segment, a.issues)

def Hand.progress (g : Hand κ) : Option (SegmentId × List (Issue κ)) :=
  g.passes.head?.bind PassState.progress

def Hand.attempt? (g : Hand κ) : Option (Attempt κ) := g.passes.head?.bind PassState.attempt

/-- The finished rows of a request, wherever they are. -/
def rowsOf (g : Hand κ) (log : List Event) (q : Request κ) : List Row :=
  q.queued ++ g.carried ++ Event.handedIn log

def ended (g : Hand κ) (log : List Event) : List Try :=
  if g.progress.isSome then (Event.tries log).tail else Event.tries log

structure Still (g : Hand κ) (log : List Event) (q : Request κ) (g' : Hand κ) (log' : List Event)
    (q' : Request κ) : Prop where
  progress : g'.progress = g.progress
  tries : Event.tries log' = Event.tries log
  issued : Event.issuedIn log' = Event.issuedIn log
  rows : (rowsOf g' log' q').Perm (rowsOf g log q)

/-- An event that tells nothing about ids and rows. -/
structure Event.IsQuiet (e : Event) : Prop where
  issued : e.issuedId? = none
  tried : e.triedSegment? = none
  handed : e.handedRow? = none

theorem Event.IsAside.isQuiet {e : Event} (h : e.IsAside) : e.IsQuiet := by
  cases e <;> first | exact ⟨rfl, rfl, rfl⟩ | exact h.elim

theorem Still.of_eq {log : List Event} (hp : g'.progress = g.progress)
    (hc : g'.carried = g.carried) (hqueued : q'.queued = q.queued) : Still g log q g' log q' := by
  refine ⟨hp, rfl, rfl, ?_⟩
  rw [rowsOf, hqueued, hc]
  exact .refl _

theorem Still.tell {log log' : List Event} (h : Still g log q g' log' q') {e : Event}
    (he : e.IsQuiet) : Still g log q g' (e :: log') q' := by
  refine ⟨h.progress, (Event.tries_quiet he.issued he.tried _).trans h.tries,
    (Event.issuedIn_quiet he.issued _).trans h.issued, ?_⟩
  rw [rowsOf, Event.handedIn_quiet he.handed]
  exact h.rows

theorem Still.append {log : List Event} (h : Still g log q g' log q') {events : List Event}
    (he : ∀ e ∈ events, e.IsQuiet) : Still g log q g' (events ++ log) q' := by
  induction events with
  | nil => exact h
  | cons e events ih =>
    exact (ih fun e he' => he e (List.mem_cons_of_mem _ he')).tell (he e List.mem_cons_self)

theorem Hand.progress_eq (hp : g'.passes = g.passes) : g'.progress = g.progress := by
  rw [progress, hp]
  rfl

theorem Hand.carried_eq (hd : g'.delivery = g.delivery) : g'.carried = g.carried := by
  rw [carried, hd]
  rfl

theorem Ambient.still (h : Ambient W r g v g' v') (hq : v.request = some q)
    (hq' : v'.request = some q') : Still g v.log q g' v'.log q' := by
  have hp := Hand.progress_eq h.hand_eq.1
  have hc := Hand.carried_eq h.hand_eq.2.1
  cases h with
  | create settings model hnew => cases hnew.symm.trans hq
  | adjust hq₀ => cases hq.symm.trans hq₀; cases hq'; exact .of_eq hp hc rfl
  | say e he => cases hq.symm.trans hq'; exact (Still.of_eq hp hc rfl).tell he.isQuiet
  | _ => cases hq.symm.trans hq'; exact .of_eq hp hc rfl

theorem Visit.queued (h : Visit r g v g' v') (hq : v.request = some q)
    (hq' : v'.request = some q') : q'.queued = q.queued := by
  cases h with
  | ask | lostPing => cases hq.symm.trans hq'; rfl
  | pop hq₀ | enter hq₀ | leave hq₀ | start hq₀ | flowAgain hq₀ | ping hq₀ | firstPing hq₀ =>
    cases hq.symm.trans hq₀
    cases hq'
    rfl

theorem Visit.quiet (h : Visit r g v g' v') :
    ∃ events, v'.log = events ++ v.log ∧ ∀ e ∈ events, e.IsQuiet := by
  cases h with
  | start => exact ⟨[_, _], rfl, by simp; exact ⟨⟨rfl, rfl, rfl⟩, ⟨rfl, rfl, rfl⟩⟩⟩
  | flowAgain | ping => exact ⟨[_], rfl, by simp; exact ⟨rfl, rfl, rfl⟩⟩
  | firstPing => exact ⟨[_, _], rfl, by simp; exact ⟨⟨rfl, rfl, rfl⟩, ⟨rfl, rfl, rfl⟩⟩⟩
  | _ => exact ⟨[], rfl, fun e he => nomatch he⟩

theorem Visit.still (h : Visit r g v g' v') (hq : v.request = some q)
    (hq' : v'.request = some q') : Still g v.log q g' v'.log q' := by
  obtain ⟨events, hlog, hquiet⟩ := h.quiet
  rw [hlog]
  exact (Still.of_eq (Hand.progress_eq h.hand_eq.1) (Hand.carried_eq h.hand_eq.2)
    (h.queued hq hq')).append hquiet

theorem Hand.carried_move {d d' : Delivery} (hd : g.delivery = some d)
    (hd' : g'.delivery = some d') (hrow : d'.row = d.row) : g'.carried = g.carried := by
  rw [carried_of_delivery hd, carried_of_delivery hd', hrow]

theorem progress_top {b : PassState κ} {bs : List (PassState κ)} (hb : g.passes = b :: bs) :
    g.progress = b.progress := by
  rw [Hand.progress, hb]
  rfl

theorem attempt?_top {b : PassState κ} {bs : List (PassState κ)} (hb : g.passes = b :: bs) :
    g.attempt? = b.attempt := by
  rw [Hand.attempt?, hb]
  rfl

theorem progress_of_attempt {b : PassState κ} {a : Attempt κ} (ha : b.attempt = some a) :
    b.progress = some (a.segment, a.issues) := by
  rw [PassState.progress, ha]
  rfl

theorem progress_of_none {b : PassState κ} (ha : b.attempt = none) : b.progress = none := by
  rw [PassState.progress, ha]
  rfl

/-- Rows move from the queues over the flush to the destination. -/
theorem Flushing.still (h : Flushing r g v g' v') (hq : v.request = some q)
    (hq' : v'.request = some q') (hf : q.flushing = true ↔ g.delivery ≠ none)
    (hlone : ∀ {b l}, g.passes = b :: l → l = []) : Still g v.log q g' v'.log q' := by
  have hempty (hidle : q.flushing = false) : g.carried = [] :=
    Hand.carried_eq_nil (Hand.delivery_eq_none hf hidle)
  cases h with
  | openOwn hq₀ hidle =>
    cases hq.symm.trans hq₀
    cases hq'
    have hopen : Still g v.log q
        { g with fresh := g.fresh - 1, delivery := some { ofPass := false, idle := q.closed } } v.log
        { q with flowing := true, flushing := true } := .of_eq rfl (hempty hidle).symm rfl
    exact hopen.tell ⟨rfl, rfl, rfl⟩
  | openLast hq₀ hidle =>
    cases hq.symm.trans hq₀
    cases hq'
    exact .of_eq rfl (hempty hidle).symm rfl
  | take kind hq₀ hd hn hs hd' hr =>
    cases hq.symm.trans hq₀
    cases hq'
    refine ⟨rfl, rfl, rfl, ?_⟩
    have hperm := Request.rows_perm hr
    rw [rowsOf, rowsOf, carried_of_delivery hd, hn.row, carried_of_delivery rfl]
    refine List.Perm.append_right _ ?_
    rw [Option.toList_none, List.append_nil]
    cases kind <;> exact (List.perm_append_singleton _ _).trans hperm.symm
  | runDry kind hq₀ hd =>
    cases hq.symm.trans hq'
    exact .of_eq rfl (Hand.carried_move hd rfl (Delivery.row_runDry _ kind)) rfl
  | @calling _ d c hq₀ hd =>
    cases hq.symm.trans hq'
    have hmove : Still g v.log q { g with delivery := some { d with asked := some c } } v.log q :=
      .of_eq rfl (Hand.carried_move hd rfl rfl) rfl
    exact hmove.tell ⟨rfl, rfl, rfl⟩
  | @called d c answer hd hc =>
    cases hq.symm.trans hq'
    have hcarried : g.carried = c.row?.toList := by rw [carried_of_delivery hd, ← hc.row]
    have hquiet (hrow : c.row? = none) : (Event.called r c answer).handedRow? = none := by
      cases c <;> first | rfl | cases hrow
    have hother (hrow : c.row? = none) : Still g v.log q
        { g with delivery := some (d.called c answer) } (.called r c answer :: v.log) q := by
      have hmove : Still g v.log q { g with delivery := some (d.called c answer) } v.log q :=
        .of_eq rfl (by rw [hcarried, hrow]; rfl) rfl
      exact hmove.tell ⟨rfl, rfl, hquiet hrow⟩
    cases c with
    | write row =>
      refine ⟨rfl, Event.tries_quiet rfl rfl _, Event.issuedIn_quiet rfl _, ?_⟩
      rw [rowsOf, rowsOf, hcarried, SinkCall.row?, carried_of_delivery rfl, Event.handedIn_cons]
      simp only [Delivery.called, Option.toList_none, List.append_nil, Option.toList_some,
        List.append_assoc]
      exact List.Perm.append_left _ List.perm_append_comm
    | begin => exact hother rfl
    | complete => exact hother rfl
    | flush => exact hother rfl
    | close => exact hother rfl
  | stop hq₀ hd =>
    cases hq.symm.trans hq₀
    cases hq'
    exact .of_eq rfl (Hand.carried_move hd rfl rfl) rfl
  | unfinished hq₀ hd => cases hq.symm.trans hq'; exact .of_eq rfl (Hand.carried_move hd rfl rfl) rfl
  | close hq₀ hd =>
    cases hq.symm.trans hq₀
    cases hq'
    exact .of_eq rfl (Hand.carried_move hd rfl rfl) rfl
  | shutOwn hq₀ hd hdone =>
    cases hq.symm.trans hq₀
    cases hq'
    exact .of_eq rfl (by rw [carried_of_delivery hd, hdone.clear.row]; rfl) rfl
  | shutLast hq₀ hd hdone ho hb hs ha =>
    cases hq.symm.trans hq₀
    cases hq'
    refine .of_eq ?_ (by rw [carried_of_delivery hd, hdone.clear.row]; rfl) rfl
    rw [progress_top hb, progress_of_none ha, hlone hb]
    rfl

theorem Hand.attempt?_eq (hp : g'.passes = g.passes) : g'.attempt? = g.attempt? := by
  rw [attempt?, hp]
  rfl

theorem Flushing.attempt?_eq (h : Flushing r g v g' v')
    (hlone : ∀ {b l}, g.passes = b :: l → l = []) : g'.attempt? = g.attempt? := by
  cases h with
  | shutLast hq hd hdone ho hb hs ha =>
    rw [attempt?_top hb, ha, Hand.attempt?, hlone hb]
    rfl
  | _ => exact Hand.attempt?_eq rfl

/-- A turn is the step of a pass, or it concerns neither segments nor references. -/
theorem Turn.still_or_working (hc : Course W r g v) (ht : Turn W r g v g' v')
    (hcalm : v'.Calm r) (hq : v.request = some q) (hq' : v'.request = some q') :
    (q.Keeps q' ∧ g'.attempt? = g.attempt? ∧ Still g v.log q g' v'.log q') ∨
      Working W r g v g' v' := by
  have hlone : ∀ {b l}, g.passes = b :: l → l = [] := hc.passes_eq (ht.calm hcalm)
  have hkept (hk : ∃ q', v'.request = some q' ∧ q.Keeps q') : q.Keeps q' := by
    obtain ⟨q₁, hq₁, hkeeps⟩ := hk
    cases hq'.symm.trans hq₁
    exact hkeeps
  cases ht with
  | ambient ht =>
    exact .inl ⟨hkept (ht.keeps hq), Hand.attempt?_eq ht.hand_eq.1, ht.still hq hq'⟩
  | visit ht =>
    exact .inl ⟨hkept (ht.keeps hq), Hand.attempt?_eq ht.hand_eq.1, ht.still hq hq'⟩
  | flushing ht =>
    exact .inl ⟨hkept (ht.keeps hq), ht.attempt?_eq hlone,
      ht.still hq hq' (hc.coherent.flushing q hq) hlone⟩
  | working ht => exact .inr ht

/-! ## Segments and their ids -/

def Request.HasDone (q : Request κ) (s : SegmentId) : Prop :=
  ∃ seg, q.segments[s.index]? = some seg ∧ seg.completed = true

def Request.HasId (q : Request κ) (s : SegmentId) (id : RowId) : Prop :=
  ∃ seg, q.segments[s.index]? = some seg ∧ seg.id = id

theorem Request.Lasts.hasDone (h : q.Lasts q') {s : SegmentId} (hs : q.HasDone s) :
    q'.HasDone s := by
  obtain ⟨seg, hseg, hc⟩ := hs
  obtain ⟨seg', hseg', hl⟩ := h.segments _ _ hseg
  exact ⟨seg', hseg', hl.completed hc⟩

theorem Request.Lasts.hasId (h : q.Lasts q') {s : SegmentId} {id : RowId} (hs : q.HasId s id) :
    q'.HasId s id := by
  obtain ⟨seg, hseg, rfl⟩ := hs
  obtain ⟨seg', hseg', hl⟩ := h.segments _ _ hseg
  exact ⟨seg', hseg', hl.id⟩

theorem Request.HasOpen.not_hasDone {s : SegmentId} (h : q.HasOpen s) : ¬ q.HasDone s := by
  rintro ⟨seg', hseg', hdone⟩
  obtain ⟨seg, hseg, hopen⟩ := h
  cases hseg.symm.trans hseg'
  exact nomatch hopen.symm.trans hdone

/-- The id is that of a segment or of an error row. -/
def Owns (q : Request κ) (rows : List Row) (id : RowId) : Prop :=
  (∃ s, q.HasId s id) ∨ ∃ row ∈ rows, row.kind = .error ∧ row.id = id

theorem Owns.mono {rows rows' : List Row} {id : RowId} (h : Owns q rows id) (hl : q.Lasts q')
    (hrows : ∀ row ∈ rows, row ∈ rows') : Owns q' rows' id := by
  rcases h with ⟨s, hs⟩ | ⟨row, hrow, hkind⟩
  · exact .inl ⟨s, hl.hasId hs⟩
  · exact .inr ⟨row, hrows row hrow, hkind⟩

/-! ## Rows and their tries -/

/-- A row was written by this one of the tries that are over: it refers to the ids that the try gave
out, its own id was given out before, and no other try of its segment gave out any. -/
structure Explains (q : Request κ) (rows : List Row) (past : List Try) (t : Try) (row : Row) :
    Prop where
  read : ∃ tree, RowTree.read? row.body = some tree ∧ tree.references = t.issued
  earlier : ∃ m < t.before, row.id = .ofNat m ∧ q.HasId t.segment (.ofNat m)
  done : q.HasDone t.segment
  owned : ∀ id ∈ t.issued, Owns q rows id
  alone : ∀ t' ∈ past, t'.segment = t.segment → t' = t ∨ t'.issued = []

/-- Segments have ids that were given out, the try under way has given out what was issued, a try
that is over has given out nothing or has completed its segment, and each row of a value was written
by a try. -/
structure Cited (g : Hand κ) (log : List Event) (q : Request κ) : Prop where
  numbered : ∀ s : SegmentId, s.index < q.segments.size →
    ∃ m < (Event.issuedIn log).length, q.HasId s (.ofNat m)
  current : ∀ s is, g.progress = some (s, is) →
    ∃ t ts, Event.tries log = t :: ts ∧ t.segment = s ∧ t.issued = is.map Issue.id ∧
      (∃ m < t.before, q.HasId s (.ofNat m)) ∧ ∀ i ∈ is, Owns q (rowsOf g log q) i.id
  silent : ∀ t ∈ ended g log, t.issued = [] ∨ q.HasDone t.segment
  explained : ∀ row ∈ rowsOf g log q, row.kind = .model →
    ∃ t ∈ ended g log, Explains q (rowsOf g log q) (ended g log) t row

theorem Explains.mono {rows rows' : List Row} {past past' : List Try} {t : Try} {row : Row}
    (h : Explains q rows past t row) (hl : q.Lasts q') (hrows : ∀ row ∈ rows, row ∈ rows')
    (hover : ∀ t' ∈ past', t' ∈ past ∨ t'.issued = [] ∨ t'.segment ≠ t.segment) :
    Explains q' rows' past' t row := by
  obtain ⟨m, hm, hid, hs⟩ := h.earlier
  refine ⟨h.read, ⟨m, hm, hid, hl.hasId hs⟩, hl.hasDone h.done,
    fun id hi => (h.owned id hi).mono hl hrows, fun t' ht' hsame => ?_⟩
  rcases hover t' ht' with hold | hnil | hother
  · exact h.alone t' hold hsame
  · exact .inr hnil
  · exact absurd hsame hother

variable {log log' : List Event}

theorem Still.ended (hs : Still g log q g' log' q') : ended g' log' = ended g log := by
  rw [TreeStream.ended, hs.progress, hs.tries]
  rfl

theorem Cited.still (h : Cited g log q) (hs : Still g log q g' log' q') (hl : q.Lasts q')
    (hsize : q'.segments.size = q.segments.size) : Cited g' log' q' := by
  have hrows : ∀ row, row ∈ rowsOf g' log' q' ↔ row ∈ rowsOf g log q := fun row =>
    hs.rows.mem_iff
  have hsub : ∀ row ∈ rowsOf g log q, row ∈ rowsOf g' log' q' := fun row hrow =>
    (hrows row).mpr hrow
  refine ⟨fun s hlt => ?_, fun s is hp => ?_, fun t ht => ?_, fun row hrow hkind => ?_⟩
  · obtain ⟨m, hm, hid⟩ := h.numbered s (hsize ▸ hlt)
    exact ⟨m, by rwa [hs.issued], hl.hasId hid⟩
  · obtain ⟨t, ts, ht, hsegment, hissued, ⟨m, hm, hid⟩, howned⟩ := h.current s is (hs.progress ▸ hp)
    exact ⟨t, ts, hs.tries.trans ht, hsegment, hissued, ⟨m, hm, hl.hasId hid⟩,
      fun i hi => (howned i hi).mono hl hsub⟩
  · rw [hs.ended] at ht
    exact (h.silent t ht).imp id hl.hasDone
  · obtain ⟨t, ht, hexplains⟩ := h.explained row ((hrows row).mp hrow) hkind
    rw [hs.ended]
    exact ⟨t, ht, hexplains.mono hl hsub fun t' ht' => .inl ht'⟩

theorem Cited.tell (h : Cited g log q) {e : Event} (he : e.IsQuiet) : Cited g (e :: log) q :=
  h.still (Still.tell (.of_eq rfl rfl rfl) he) (.of_eq rfl rfl) rfl

theorem Cited.skip (h : Cited g log q) (hp : g.progress = none) (hp' : g'.progress = none)
    (hc : g'.carried = g.carried) (s : SegmentId) :
    Cited g' (.retried r s :: log) q := by
  have hrows : rowsOf g' (.retried r s :: log) q = rowsOf g log q := by
    rw [rowsOf, hc, Event.handedIn_quiet rfl]
    rfl
  have hover : ended g' (.retried r s :: log) =
      ⟨s, (Event.issuedIn log).length, []⟩ :: ended g log := by
    rw [ended, ended, hp, hp']
    rfl
  refine ⟨fun s hlt => ?_, fun s is hp'' => (nomatch hp'.symm.trans hp''), fun t ht => ?_,
    fun row hrow hkind => ?_⟩
  · rw [Event.issuedIn_quiet rfl]
    exact h.numbered s hlt
  · rw [hover] at ht
    rcases List.mem_cons.mp ht with rfl | ht
    · exact .inl rfl
    · exact h.silent t ht
  · rw [hrows] at hrow
    obtain ⟨t, ht, hexplains⟩ := h.explained row hrow hkind
    rw [hover, hrows]
    refine ⟨t, List.mem_cons_of_mem _ ht, hexplains.mono (.of_eq rfl rfl) (fun _ h => h)
      fun t' ht' => ?_⟩
    rcases List.mem_cons.mp ht' with rfl | ht'
    · exact .inr (.inl rfl)
    · exact .inl ht'

theorem Cited.begin (h : Cited g log q) {s : SegmentId} (hp : g.progress = none)
    (hp' : g'.progress = some (s, [])) (hc : g'.carried = g.carried)
    (hs : s.index < q.segments.size) : Cited g' (.retried r s :: log) q := by
  have hrows : rowsOf g' (.retried r s :: log) q = rowsOf g log q := by
    rw [rowsOf, hc, Event.handedIn_quiet rfl]
    rfl
  have hover : ended g' (.retried r s :: log) = ended g log := by
    rw [ended, ended, hp, hp']
    rfl
  refine ⟨fun s hlt => ?_, fun s' is hp'' => ?_, ?_, ?_⟩
  · rw [Event.issuedIn_quiet rfl]
    exact h.numbered s hlt
  · cases hp'.symm.trans hp''
    exact ⟨_, _, rfl, rfl, rfl, h.numbered s hs, fun i hi => nomatch hi⟩
  · rw [hover]
    exact h.silent
  · rw [hover, hrows]
    exact h.explained

theorem Cited.issue (h : Cited g log q) {s : SegmentId} {is : List (Issue κ)} {i : Issue κ}
    (hp : g.progress = some (s, is)) (hp' : g'.progress = some (s, is ++ [i]))
    (hl : q.Lasts q') (hsegments : ∀ s : SegmentId, s.index < q'.segments.size →
      s.index < q.segments.size ∨ q'.HasId s (.ofNat (Event.issuedIn log).length))
    (howns : Owns q' (rowsOf g' (.issued r i.id :: log) q') i.id)
    (hrows : ∀ row, row ∈ rowsOf g log q → row ∈ rowsOf g' (.issued r i.id :: log) q')
    (hnew : ∀ row ∈ rowsOf g' (.issued r i.id :: log) q',
      row ∈ rowsOf g log q ∨ row.kind = .error) :
    Cited g' (.issued r i.id :: log) q' := by
  obtain ⟨t, ts, ht, hsegment, hissued, ⟨m, hm, hid⟩, howned⟩ := h.current s is hp
  have htries := Event.tries_issued r i.id ht
  have hover : ended g' (.issued r i.id :: log) = ended g log := by
    rw [ended, ended, hp, hp', htries, ht]
    rfl
  refine ⟨fun s hlt => ?_, fun s' is' hp'' => ?_, fun t' ht' => ?_, fun row hrow hkind => ?_⟩
  · rw [Event.issuedIn_cons, List.length_append]
    rcases hsegments s hlt with hold | hid
    · obtain ⟨m, hm, hid⟩ := h.numbered s hold
      exact ⟨m, Nat.lt_of_lt_of_le hm (Nat.le_add_right _ _), hl.hasId hid⟩
    · exact ⟨_, Nat.lt_succ_self _, hid⟩
  · cases hp'.symm.trans hp''
    refine ⟨_, ts, htries, hsegment, by simp [hissued], ⟨m, hm, hl.hasId hid⟩, fun j hj => ?_⟩
    rcases List.mem_append.mp hj with hj | hj
    · exact (howned j hj).mono hl hrows
    · rw [List.mem_singleton.mp hj]
      exact howns
  · rw [hover] at ht'
    exact (h.silent t' ht').imp id hl.hasDone
  · have hold := (hnew row hrow).resolve_right fun he => nomatch hkind.symm.trans he
    obtain ⟨t', ht', hexplains⟩ := h.explained row hold hkind
    rw [hover]
    exact ⟨t', ht', hexplains.mono hl hrows fun _ ht => .inl ht⟩

/-- A try ends: it has issued nothing, or it completes its segment, with a row of a value or with an
error row. -/
theorem Cited.finish (h : Cited g log q) {s : SegmentId} {is : List (Issue κ)}
    (hp : g.progress = some (s, is)) (hp' : g'.progress = none) (ho : q.HasOpen s)
    (hl : q.Lasts q') (hsize : q'.segments.size = q.segments.size)
    (hdone : is = [] ∨ q'.HasDone s)
    (hrows : ∀ row, row ∈ rowsOf g log q → row ∈ rowsOf g' log q')
    (hnew : ∀ row ∈ rowsOf g' log q', row ∈ rowsOf g log q ∨ row.kind = .error ∨
      (q.HasId s row.id ∧ q'.HasDone s ∧
        ∃ tree, RowTree.read? row.body = some tree ∧ tree.references = is.map Issue.id)) :
    Cited g' log q' := by
  obtain ⟨t, ts, ht, hsegment, hissued, ⟨m, hm, hid⟩, howned⟩ := h.current s is hp
  have hover : ended g log = ts := by rw [ended, hp, ht]; rfl
  have hover' : ended g' log = t :: ts := by rw [ended, hp', ht]; rfl
  have hsilent := h.silent
  have hexplained := h.explained
  rw [hover] at hsilent hexplained
  refine ⟨fun s hlt => ?_, fun s' is' hp'' => (nomatch hp'.symm.trans hp''), fun t' ht' => ?_,
    fun row hrow hkind => ?_⟩
  · obtain ⟨m, hm, hid⟩ := h.numbered s (hsize ▸ hlt)
    exact ⟨m, hm, hl.hasId hid⟩
  · rw [hover'] at ht'
    rcases List.mem_cons.mp ht' with rfl | ht'
    · rw [hissued, hsegment]
      exact hdone.imp (fun hnil => by rw [hnil]; rfl) id
    · exact (hsilent t' ht').imp id hl.hasDone
  · rw [hover']
    rcases hnew row hrow with hold | herror | ⟨hrow, hdone, hread⟩
    · obtain ⟨t', ht', hexplains⟩ := hexplained row hold hkind
      refine ⟨t', List.mem_cons_of_mem t ht', hexplains.mono hl hrows fun t'' ht'' => ?_⟩
      rcases List.mem_cons.mp ht'' with rfl | ht''
      · refine .inr (.inr fun hsame => ho.not_hasDone ?_)
        rw [← hsegment, hsame]
        exact hexplains.done
      · exact .inl ht''
    · exact nomatch hkind.symm.trans herror
    · refine ⟨t, List.mem_cons_self, ?_, ⟨m, hm, ?_, ?_⟩, hsegment ▸ hdone, fun id hi => ?_,
        fun t' ht' hsame => ?_⟩
      · rw [hissued]
        exact hread
      · obtain ⟨seg, hseg, hrow⟩ := hrow
        obtain ⟨seg', hseg', hid⟩ := hid
        cases hseg.symm.trans hseg'
        rw [← hrow, hid]
      · rw [hsegment]
        exact hl.hasId hid
      · rw [hissued] at hi
        obtain ⟨i, hmem, rfl⟩ := List.mem_map.mp hi
        exact (howned i hmem).mono hl hrows
      · rcases List.mem_cons.mp ht' with rfl | ht'
        · exact .inl rfl
        · refine .inr ((hsilent t' ht').resolve_right fun hd => ho.not_hasDone ?_)
          rwa [← hsegment, ← hsame]

/-! ## Courses -/

theorem Request.hasDone_complete {s : SegmentId} {seg : Segment κ}
    (hs : q.segments[s.index]? = some seg)
    (hq' : q'.segments = q.segments.modify s.index fun seg => { seg with completed := true }) :
    q'.HasDone s := by
  rw [HasDone, hq', Array.getElem?_modify, if_pos rfl, hs]
  exact ⟨_, rfl, rfl⟩

theorem rowsOf_cons {row : Row} (h : q'.queued.Perm (row :: q.queued)) :
    (rowsOf g log q').Perm (row :: rowsOf g log q) := by
  rw [rowsOf, rowsOf, List.append_assoc, List.append_assoc, ← List.cons_append]
  exact h.append_right _

theorem Working.cited (h : Working W r g v g' v') (hq : v.request = some q)
    (hq' : v'.request = some q') (hcited : Cited g v.log q) (hl : q.Lasts q')
    (hbegin : 0 < g.fresh → v'.log = .began r (decide (1 < q.running)) :: v.log → g.passes = [])
    (hlone : ∀ {b bs}, g.passes = b :: bs → bs = [])
    (hopen : ∀ {b bs a}, g.passes = b :: bs → b.attempt = some a → q.HasOpen a.segment)
    (hnext : q.nextId = .ofNat (Event.issuedIn v.log).length) : Cited g' v'.log q' := by
  cases h with
  | begin hq₀ hm hfresh =>
    cases hq.symm.trans hq₀
    cases hq'
    have hnil := hbegin hfresh rfl
    refine hcited.still (Still.tell (.of_eq ?_ ?_ ?_) ?_) hl rfl
    · rw [Hand.progress, Hand.progress, hnil]
      rfl
    · rfl
    · rfl
    · exact ⟨rfl, rfl, rfl⟩
  | @skip _ b bs s ss seg hb hs ha hq₀ hseg hc =>
    cases hq.symm.trans hq'
    have hover : Hand.progress
        { g with passes := { b with batch := ss, current := some s } :: bs } = none := by
      rw [progress_top rfl]
      exact progress_of_none ha
    exact hcited.skip ((progress_top hb).trans (progress_of_none ha)) hover rfl s
  | attempt hb hs ha hq₀ hseg hc =>
    cases hq.symm.trans hq'
    cases hq.symm.trans hq₀
    obtain ⟨hlt, -⟩ := Array.getElem?_eq_some_iff.mp hseg
    exact hcited.begin ((progress_top hb).trans (progress_of_none ha))
      rfl rfl hlt
  | leave hb ha =>
    cases hq.symm.trans hq'
    refine (hcited.tell ⟨rfl, rfl, rfl⟩).still (.of_eq ?_ rfl rfl) hl rfl
    rw [progress_top hb, progress_top rfl]
    rfl
  | value hb ha | layer hb ha =>
    cases hq.symm.trans hq'
    refine hcited.still (.of_eq ?_ rfl rfl) hl rfl
    rw [progress_top hb, progress_of_attempt ha]
    rfl
  | memo hb ha hv hq₀ =>
    cases hq.symm.trans hq₀
    cases hq'
    exact hcited.still (.of_eq rfl rfl rfl) hl (by simp)
  | wait hb ha hi =>
    cases hq.symm.trans hq'
    exact hcited.finish ((progress_top hb).trans (progress_of_attempt ha))
      rfl (hopen hb ha) hl rfl (.inl hi)
      (fun row hrow => hrow) fun row hrow => .inl hrow
  | @defer _ b bs a query hb ha hv hq₀ =>
    cases hq.symm.trans hq₀
    cases hq'
    refine hcited.issue (i := .segment ⟨q.segments.size⟩ q.nextId query)
      ((progress_top hb).trans (progress_of_attempt ha))
      rfl hl (fun s hlt => ?_)
      (.inl ⟨⟨q.segments.size⟩, _, Array.getElem?_push_size, rfl⟩) (fun row hrow => ?_)
      fun row hrow => .inl ?_
    · rw [Array.size_push] at hlt
      rcases Nat.lt_succ_iff_lt_or_eq.mp hlt with hold | hlast
      · exact .inl hold
      · refine .inr ⟨{ id := q.nextId, query := query }, ?_, hnext⟩
        rw [hlast]
        exact Array.getElem?_push_size
    · rw [rowsOf, Event.handedIn_quiet rfl]
      exact hrow
    · rw [rowsOf, Event.handedIn_quiet rfl] at hrow
      exact hrow
  | @report _ b bs a e hb ha hv hq₀ =>
    cases hq.symm.trans hq₀
    cases hq'
    have hrows : (rowsOf g (.issued r q.nextId :: v.log)
        { q with errorRows := q.errorRows ++ [Row.ofError q.nextId e] }).Perm
          (Row.ofError q.nextId e :: rowsOf g v.log q) := by
      rw [rowsOf, Event.handedIn_quiet rfl]
      exact rowsOf_cons (q.queued_error _)
    refine Cited.tell (e := .completed r _) ?_ ⟨rfl, rfl, rfl⟩
    refine hcited.issue (i := .error q.nextId e)
      ((progress_top hb).trans (progress_of_attempt ha)) rfl hl (fun s hlt => .inl hlt)
      (.inr ⟨Row.ofError q.nextId e, hrows.mem_iff.mpr List.mem_cons_self, rfl, rfl⟩)
      (fun row hrow => hrows.mem_iff.mpr (List.mem_cons_of_mem _ hrow)) fun row hrow => ?_
    rcases List.mem_cons.mp (hrows.mem_iff.mp hrow) with rfl | hold
    · exact .inr rfl
    · exact .inl hold
  | @complete _ b bs a seg strict depth value json hb ha hv hw hq₀ hseg =>
    cases hq.symm.trans hq₀
    cases hq'
    have hrows : (rowsOf g v.log
        { q with modelRows := q.modelRows ++ [Row.ofModel seg.id json] }).Perm
          (Row.ofModel seg.id json :: rowsOf g v.log q) := rowsOf_cons (q.queued_model _)
    have hdone : Request.HasDone { q with
        segments := q.segments.modify a.segment.index fun seg => { seg with completed := true }
        modelRows := q.modelRows ++ [Row.ofModel seg.id json] } a.segment :=
      Request.hasDone_complete hseg rfl
    refine Cited.tell (e := .completed r _) ?_ ⟨rfl, rfl, rfl⟩
    refine hcited.finish ((progress_top hb).trans (progress_of_attempt ha)) rfl
      (hopen hb ha) hl (by simp) (.inr hdone)
      (fun row hrow => hrows.mem_iff.mpr (List.mem_cons_of_mem _ hrow)) fun row hrow => ?_
    rcases List.mem_cons.mp (hrows.mem_iff.mp hrow) with rfl | hold
    · exact .inr (.inr ⟨⟨seg, hseg, rfl⟩, hdone, Serializer.serialize_cites hw⟩)
    · exact .inl hold
  | @fail _ b bs a seg e hb ha hw hq₀ hseg =>
    cases hq.symm.trans hq₀
    cases hq'
    have hrows : (rowsOf g v.log
        { q with errorRows := q.errorRows ++ [Row.ofError seg.id e] }).Perm
          (Row.ofError seg.id e :: rowsOf g v.log q) := rowsOf_cons (q.queued_error _)
    refine Cited.tell (e := .completed r _) ?_ ⟨rfl, rfl, rfl⟩
    refine hcited.finish ((progress_top hb).trans (progress_of_attempt ha)) rfl
      (hopen hb ha) hl (by simp) (.inr (Request.hasDone_complete hseg rfl))
      (fun row hrow => hrows.mem_iff.mpr (List.mem_cons_of_mem _ hrow)) fun row hrow => ?_
    rcases List.mem_cons.mp (hrows.mem_iff.mp hrow) with rfl | hold
    · exact .inr (.inl rfl)
    · exact .inl hold
  | finish hb hs ha =>
    cases hq.symm.trans hq'
    refine hcited.still (.of_eq ?_ rfl rfl) hl rfl
    rw [progress_top hb, progress_of_none ha, hlone hb]
    rfl

theorem Turn.cited (hc : Course W r g v) (ht : Turn W r g v g' v') (hcalm : v'.Calm r)
    (hq : v.request = some q) (hq' : v'.request = some q') (h : Cited g v.log q) :
    Cited g' v'.log q' := by
  obtain ⟨q₁, hq₁, hl⟩ := ht.lasts hq
  cases hq'.symm.trans hq₁
  have hbefore := ht.calm hcalm
  rcases ht.still_or_working hc hcalm hq hq' with ⟨hkeeps, -, hstill⟩ | ht
  · exact h.still hstill hl (by rw [hkeeps.segments])
  · refine ht.cited hq hq' h hl (fun hfresh hlog => hc.passes_of_began hq hfresh hcalm hlog)
      (hc.passes_eq hbefore) (fun hb ha => ?_) (hc.balanced (hc.apart hbefore) hq).nextId
    obtain ⟨q₂, hq₂, ho⟩ := hc.attempting (hc.apart hbefore) (hb ▸ List.mem_cons_self) ha
    cases hq.symm.trans hq₂
    exact ho

theorem Event.IsAside.tries {log : List Event} (h : ∀ e ∈ log, e.IsAside) : tries log = [] := by
  induction log with
  | nil => rfl
  | cons e log ih =>
    have he := (h e List.mem_cons_self).isQuiet
    rw [tries_quiet he.issued he.tried]
    exact ih fun e he => h e (List.mem_cons_of_mem _ he)

theorem Created.cited (h : Created r g v) (settings : RequestSettings κ) (model : Model κ) :
    Cited g v.log (.ofModel settings model) := by
  obtain ⟨log, hlog, hasides⟩ := h.log
  obtain ⟨-, hhanded⟩ := Event.IsAside.quiets hasides
  have htries : Event.tries v.log = [] := by
    rw [hlog, Event.tries, Event.IsAside.tries hasides]
  have hprogress : g.progress = none := by
    rw [Hand.progress, h.passes]
    rfl
  have hended : ended g v.log = [] := by
    rw [ended, hprogress, htries]
    rfl
  have hrows : rowsOf g v.log (.ofModel settings model) = [] := by
    rw [rowsOf, Hand.carried, h.delivery, hlog, Event.handedIn_quiet rfl, hhanded]
    rfl
  refine ⟨fun s hs => ⟨0, ?_, { id := .ofNat 0, query := .model model }, ?_, rfl⟩,
    fun s is hp => ?_, fun t ht => ?_, fun row hrow => ?_⟩
  · rw [hlog, Event.issuedIn_cons, List.length_append]
    exact Nat.lt_of_lt_of_le Nat.zero_lt_one (Nat.le_add_left _ _)
  · have hindex : s.index = 0 := Nat.lt_one_iff.mp hs
    rw [hindex]
    rfl
  · cases hprogress.symm.trans hp
  · rw [hended] at ht
    cases ht
  · rw [hrows] at hrow
    cases hrow

/-- Without nested passes references are kept sound all along. -/
theorem Course.cited (h : Course W r g v) (hcalm : v.Calm r) (hq : v.request = some q) :
    Cited g v.log q := by
  refine Course.induct (P := fun g v q => v.Calm r → Cited g v.log q)
    (fun settings model hnew _ => hnew.cited settings model) ?_ h hq hcalm
  exact fun hc ht hq hq' ih hcalm => ht.cited hc hcalm hq hq' (ih (ht.calm hcalm))

/-! ## The references of a stream -/

/-- The rows that a row refers to. Error rows refer to none. -/
def Row.references (row : Row) : List RowId :=
  match row.kind with
  | .model => ((RowTree.read? row.body).map RowTree.references).getD []
  | .error => []

theorem Row.kind_of_mem_references {row : Row} {id : RowId} (hi : id ∈ row.references) :
    row.kind = .model := by
  cases hkind : row.kind with
  | model => rfl
  | error => simp [references, hkind] at hi

theorem Explains.references_eq {rows : List Row} {past : List Try} {t : Try} {row : Row}
    (h : Explains q rows past t row) (hkind : row.kind = .model) : row.references = t.issued := by
  obtain ⟨tree, htree, hreferences⟩ := h.read
  simp [Row.references, hkind, htree, hreferences]

/-- The id of a row was given out before the try that has written it. -/
theorem Explains.id_lt {rows : List Row} {past : List Try} {t : Try} {row : Row}
    (h : Explains q rows past t row) (hlt : t.before ≤ 2 ^ 32) :
    q.HasId t.segment row.id ∧ row.id.toNat < t.before := by
  obtain ⟨m, hm, hid, hsegment⟩ := h.earlier
  rw [hid, (RowId.ofNat_eq_iff (Nat.lt_of_lt_of_le hm hlt)).mp rfl]
  exact ⟨hsegment, hm⟩

/-- Rows of different ids that are written by tries refer to different rows. -/
theorem nodup_references {rows : List Row} {ids : List RowId} {ts : List Try}
    (h : Try.Slices ids ts) (hids : ids = RowId.enumerate (.ofNat 0) ids.length)
    (hlt : ids.length < 2 ^ 32) (hrows : (rows.map Row.id).Nodup)
    (hexplained : ∀ row ∈ rows, row.kind = .model → ∃ t ∈ ts, Explains q rows ts t row) :
    (rows.flatMap Row.references).Nodup := by
  refine List.nodup_flatMap.mpr ⟨fun row hrow => ?_, ?_⟩
  · cases hkind : row.kind with
    | model =>
      obtain ⟨t, ht, he⟩ := hexplained row hrow hkind
      rw [he.references_eq hkind]
      exact h.nodup_issued hids hlt ht
    | error => simp [Row.references, hkind]
  · refine (List.pairwise_map.mp hrows).imp_of_mem fun {row row'} hrow hrow' hne => ?_
    refine List.disjoint_left.mpr fun id hi hi' => hne ?_
    have hkind := Row.kind_of_mem_references hi
    have hkind' := Row.kind_of_mem_references hi'
    obtain ⟨t, ht, he⟩ := hexplained row hrow hkind
    obtain ⟨t', ht', he'⟩ := hexplained row' hrow' hkind'
    rw [he.references_eq hkind] at hi
    rw [he'.references_eq hkind'] at hi'
    obtain rfl := h.eq_of_mem_issued hids hlt ht ht' hi hi'
    obtain ⟨m, -, hid, seg, hseg, hsegment⟩ := he.earlier
    obtain ⟨m', -, hid', seg', hseg', hsegment'⟩ := he'.earlier
    cases hseg.symm.trans hseg'
    rw [hid, hid', ← hsegment, ← hsegment']

/-- References lead to greater ids, which were given out. -/
theorem Course.lt_of_mem_references (h : Course W r {} v) (hcalm : v.Calm r)
    (hq : v.request = some q) (hids : (Event.issuedIn v.log).length < 2 ^ 32) {row : Row}
    (hrow : row ∈ rowsOf {} v.log q) {id : RowId} (hi : id ∈ row.references) :
    row.id.toNat < id.toNat ∧ id ∈ Event.issuedIn v.log := by
  have hkind := Row.kind_of_mem_references hi
  have hslices := Event.slices_tries v.log
  obtain ⟨t, ht, he⟩ := (h.cited hcalm hq).explained row hrow hkind
  obtain ⟨l, l', hl, hlength⟩ := hslices.exists_eq ht
  have hle := Nat.le_of_lt (Nat.lt_of_le_of_lt (hslices.after_le ht) hids)
  have hlt := (he.id_lt (Nat.le_trans (Nat.le_add_right _ _) hle)).2
  rw [he.references_eq hkind] at hi
  have hbefore := (hslices.bounds_of_mem (h.balanced (h.apart hcalm) hq).issued hids ht hi).1
  refine ⟨Nat.lt_of_lt_of_le hlt hbefore, ?_⟩
  rw [hl]
  exact List.mem_append_left _ (List.mem_append_right _ hi)

namespace Host

/-- The rows of a request that are completed, queued ones before those that were handed over. -/
def rows (h : Host κ σ) (r : RequestId) (q : Request κ) : List Row := q.queued ++ h.handed r

/-- In every state that a session reaches, as long as no pass was nested and fewer than `2 ^ 32` ids
were given out: each completed row of a value is read to a tree, and in the order of its text the
tree refers to just the ids that one try of the row's segment gave out. They follow each other, they
begin with the number of ids given out before that try, which is above the row's own id, and no
other try of the segment gave out any. Each of them is the id of a segment or of an error row. So no
id is referred to twice, all references lead to greater ids, and no text of a model is read as a
reference. -/
theorem references_sound (user : UserCode κ σ) {h : Host κ σ}
    (hr : Reachable user (fun _ => True) h) {r : RequestId} {q : Request κ}
    (hq : h.requests[r.index]? = some q) (hu : h.Unnested r)
    (hids : (h.issued r).length < 2 ^ 32) :
    (∀ row ∈ h.rows r q, row.kind = .model →
      ∃ tree, RowTree.read? row.body = some tree ∧
        ∃ t ∈ Event.tries (h.view r).log, q.HasId t.segment row.id ∧
          tree.references = t.issued ∧
          t.issued = RowId.enumerate (.ofNat t.before) t.issued.length ∧
          row.id.toNat < t.before ∧
          (∀ t' ∈ Event.tries (h.view r).log,
            t'.segment = t.segment → t' = t ∨ t'.issued = []) ∧
          ∀ id ∈ tree.references, Owns q (h.rows r q) id) ∧
    ((h.rows r q).flatMap Row.references).Nodup ∧
    (∀ row ∈ h.rows r q, ∀ id ∈ row.references, row.id.toNat < id.toNat) ∧
    ∀ text id, RowToken.parse (RowToken.escape text) ≠ .reference id := by
  have hcourse := hr.course_any r
  have hb := hcourse.balanced (hr.apart hu) (q := q) hq
  have hslices : Try.Slices (h.issued r) (Event.tries (h.view r).log) :=
    Event.slices_tries (h.view r).log
  have hissued : h.issued r = RowId.enumerate (.ofNat 0) (h.issued r).length := hb.issued
  have hrows : rowsOf {} (h.view r).log q = h.rows r q := by
    rw [rowsOf, Hand.carried, List.append_nil]
    rfl
  have hexplained : ∀ row ∈ h.rows r q, row.kind = .model →
      ∃ t ∈ Event.tries (h.view r).log,
        Explains q (h.rows r q) (Event.tries (h.view r).log) t row := by
    have := (hcourse.cited hu.calm (q := q) hq).explained
    rwa [hrows] at this
  refine ⟨fun row hrow hkind => ?_, ?_, fun row hrow id hi => ?_, fun text id he => ?_⟩
  · obtain ⟨t, ht, he⟩ := hexplained row hrow hkind
    obtain ⟨tree, htree, hreferences⟩ := he.read
    have hle : t.before ≤ (h.issued r).length :=
      Nat.le_trans (Nat.le_add_right _ _) (hslices.after_le ht)
    obtain ⟨hid, hlt⟩ := he.id_lt (Nat.le_of_lt (Nat.lt_of_le_of_lt hle hids))
    exact ⟨tree, htree, t, ht, hid, hreferences, hslices.issued_eq hissued ht, hlt, he.alone,
      fun id hi => he.owned id (hreferences ▸ hi)⟩
  · have hnodup : (h.issued r).Nodup := by
      rw [hissued]
      exact RowId.nodup_enumerate (by omega)
    have hperm := hb.perm
    rw [show (ledgerOf {} (h.view r) q).issued = h.issued r from rfl] at hperm
    have hids' := (List.nodup_append.mp (hperm.nodup_iff.mpr hnodup)).2.1
    refine nodup_references hslices hissued hids ?_ hexplained
    simpa [ledgerOf, Hand.carried, rows, handed] using hids'
  · rw [← hrows] at hrow
    exact (hcourse.lt_of_mem_references hu.calm (q := q) hq hids hrow hi).1
  · rw [RowToken.parse_escape] at he
    cases he

/-- The first row of the late model refers to the row of the late component. -/
theorem references_sound_late :
    ∃ (h : Host Unit Unit) (q : Request Unit),
      Reachable Late.user (fun _ => True) h ∧ h.requests[0]? = some q ∧ h.Unnested ⟨0⟩ ∧
      (h.issued ⟨0⟩).length < 2 ^ 32 ∧
      (h.rows ⟨0⟩ q).map Row.body = ["[\"$1\"]"] ∧
      ∀ row ∈ h.rows ⟨0⟩ q, ∃ tree, RowTree.read? row.body = some tree ∧
        ∀ id ∈ tree.references, Owns q (h.rows ⟨0⟩ q) id := by
  obtain ⟨h, q, hr, hq, hp⟩ := exists_reachable (r := ⟨0⟩) (n := 20) Late.user
    Late.opening_makes
    (fun h q => decide (h.Unnested ⟨0⟩ ∧ h.issued ⟨0⟩ = [RowId.ofNat 0, RowId.ofNat 1] ∧
      h.rows ⟨0⟩ q = [⟨.ofNat 0, .model, "[\"$1\"]"⟩]))
    (by decide +kernel :
      (play Late.user () #[] Late.settings Late.model Late.opening 20).any _ = true)
  obtain ⟨hu, hissued, hrows⟩ := of_decide_eq_true hp
  have hids : (h.issued ⟨0⟩).length < 2 ^ 32 := by
    rw [hissued]
    decide
  obtain ⟨hcited, -⟩ := references_sound Late.user hr hq hu hids
  refine ⟨h, q, hr, hq, hu, hids, by rw [hrows]; rfl, fun row hrow => ?_⟩
  have hkind : row.kind = .model := by
    rw [hrows, List.mem_singleton] at hrow
    rw [hrow]
  obtain ⟨tree, htree, t, -, -, -, -, -, -, howned⟩ := hcited row hrow hkind
  exact ⟨tree, htree, howned⟩

end Host
end TreeStream

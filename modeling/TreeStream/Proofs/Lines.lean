import TreeStream.Proofs.Dialogues
import TreeStream.Proofs.References

/-!
# The order of rows

Each queue hands its rows over in the order in which they were completed. A row of a value refers to
ids that were given out while its segment was tried, and a segment is tried only after its own id
was given out. So when a row of a value is completed, the rows that refer to it were completed
before, and the queue keeps it that way.
-/

namespace TreeStream

variable {κ σ : Type} {W : World κ} {r : RequestId} {g g' : Hand κ} {v v' : View κ}
  {q q' : Request κ}

/-! ## Rows that come first -/

/-- Wherever a row of the kind stands in the line, those of the rows that refer to it stand before
it, unless its id was given out twice. -/
def Leads (kind : RowKind) (ids : List RowId) (rows line : List Row) : Prop :=
  ∀ before row after, line = before ++ row :: after → row.kind = kind → ids.count row.id ≤ 1 →
    ∀ citing ∈ rows, row.id ∈ citing.references → citing ∈ before

namespace Leads

variable {kind : RowKind} {ids ids' : List RowId} {rows rows' line : List Row} {row : Row}

theorem nil : Leads kind ids rows [] := by
  intro before row after hline
  simp at hline

/-- More ids are given out, and rows are added that refer to nothing in the line. -/
theorem mono (h : Leads kind ids rows line) (hids : ∀ id, ids.count id ≤ ids'.count id)
    (hrows : ∀ citing ∈ rows', citing ∈ rows ∨ ∀ row ∈ line, row.kind = kind →
      ids'.count row.id ≤ 1 → row.id ∉ citing.references) : Leads kind ids' rows' line := by
  intro before row after hline hkind hcount citing hciting hmem
  rcases hrows citing hciting with hold | hnew
  · exact h before row after hline hkind (Nat.le_trans (hids row.id) hcount) citing hold hmem
  · have hrow : row ∈ line := by
      rw [hline]
      exact List.mem_append_right _ List.mem_cons_self
    exact absurd hmem (hnew row hrow hkind hcount)

/-- A row is put at the end, after all that refer to it. -/
theorem push (h : Leads kind ids rows line)
    (hrow : row.kind = kind → ids.count row.id ≤ 1 →
      ∀ citing ∈ rows, row.id ∈ citing.references → citing ∈ line) :
    Leads kind ids rows (line ++ [row]) := by
  intro before last after hline hkind hcount citing hciting hmem
  rcases List.eq_nil_or_concat after with rfl | ⟨after, last', rfl⟩
  · obtain ⟨rfl, hlast⟩ := List.append_inj' hline rfl
    cases hlast
    exact hrow hkind hcount citing hciting hmem
  · rw [List.concat_eq_append, ← List.cons_append, ← List.append_assoc] at hline
    obtain ⟨hline, -⟩ := List.append_inj' hline rfl
    exact h before last after hline hkind hcount citing hciting hmem

/-- Rows of other kinds stand anywhere in the line, and more rows may follow. -/
theorem of_filter (rest : List Row)
    (h : Leads kind ids rows (line.filter (fun row => row.kind = kind) ++ rest)) :
    Leads kind ids rows line := by
  intro before row after hline hkind hcount citing hciting hmem
  have hbefore : citing ∈ before.filter fun row => row.kind = kind := by
    refine h _ row (after.filter (fun row => row.kind = kind) ++ rest) ?_ hkind hcount citing
      hciting hmem
    rw [hline, List.filter_append, List.filter_cons_of_pos (by simpa using hkind),
      List.append_assoc, List.cons_append]
  exact (List.mem_filter.mp hbefore).1

end Leads

/-! ## Completed rows, and where they are -/

/-- The rows that have left their queues, in this order. -/
def sent (g : Hand κ) (log : List Event) : List Row := Event.handedIn log ++ g.carried

theorem Event.handedIn_unheard {events : List Event} (h : ∀ e ∈ events, e.isHeard = false)
    (log : List Event) : handedIn (events ++ log) = handedIn log := by
  induction events with
  | nil => rfl
  | cons e events ih =>
    have hquiet : e.handedRow? = none := by
      have he := h e List.mem_cons_self
      cases e <;> first | rfl | cases he
    rw [List.cons_append, handedIn_quiet hquiet]
    exact ih fun e he => h e (List.mem_cons_of_mem _ he)

theorem Unheard.sent {events log : List Event} (h : Unheard g q g' q' events) :
    sent g' (events ++ log) = sent g log := by
  rw [TreeStream.sent, TreeStream.sent, Event.handedIn_unheard h.events,
    Hand.carried_eq h.delivery]

/-- A flush takes the first row of a queue: an error row only if the destination is saturated or
there was no row of a value left. -/
structure Takes (g : Hand κ) (q q' : Request κ) (kind : RowKind) (row : Row) : Prop where
  writing : ∃ d, g.delivery = some d ∧ (kind = .error → d.saturated = true ∨ d.modelDry = true)
  first : q.rows kind = row :: q'.rows kind
  others : ∀ other, other ≠ kind → q'.rows other = q.rows other

/-- A step of a flush takes a row, or it leaves all rows in their order. -/
theorem Flushing.sent_cases (h : Flushing r g v g' v') (hq : v.request = some q)
    (hq' : v'.request = some q') (hf : q.flushing = true ↔ g.delivery ≠ none) :
    (sent g' v'.log = sent g v.log ∧ ∀ kind, q'.rows kind = q.rows kind) ∨
      ∃ kind row, sent g' v'.log = sent g v.log ++ [row] ∧ Takes g q q' kind row := by
  have hempty (hidle : q.flushing = false) : g.carried = [] :=
    Hand.carried_eq_nil (Hand.delivery_eq_none hf hidle)
  have hmove {log : List Event} (hlog : Event.handedIn log = Event.handedIn v.log)
      (hcarried : g'.carried = g.carried) : sent g' log = sent g v.log := by
    rw [sent, sent, hlog, hcarried]
  cases h with
  | openOwn hq₀ hidle =>
    cases hq.symm.trans hq₀
    cases hq'
    exact .inl ⟨hmove (Event.handedIn_quiet rfl _) (hempty hidle).symm, fun kind => by
      cases kind <;> rfl⟩
  | openLast hq₀ hidle =>
    cases hq.symm.trans hq₀
    cases hq'
    exact .inl ⟨hmove rfl (hempty hidle).symm, fun kind => by cases kind <;> rfl⟩
  | @take _ d row rest kind hq₀ hd hn hs hd' hr hw =>
    cases hq.symm.trans hq₀
    cases hq'
    refine .inr ⟨kind, row, ?_, ⟨d, hd, hw⟩, ?_, fun other hne => ?_⟩
    · rw [sent, sent, carried_of_delivery hd, hn.row, carried_of_delivery rfl, Option.toList_none,
        List.append_nil, Option.toList_some]
    · rw [hr]
      cases kind <;> rfl
    · cases kind <;> cases other <;> first | rfl | exact absurd rfl hne
  | runDry kind hq₀ hd =>
    cases hq.symm.trans hq'
    exact .inl ⟨hmove rfl (Hand.carried_move hd rfl (Delivery.row_runDry _ kind)), fun _ => rfl⟩
  | @calling _ d c hq₀ hd =>
    cases hq.symm.trans hq'
    exact .inl ⟨hmove (Event.handedIn_quiet rfl _) (Hand.carried_move hd rfl rfl), fun _ => rfl⟩
  | @called d c answer hd hc =>
    cases hq.symm.trans hq'
    refine .inl ⟨?_, fun _ => rfl⟩
    have hcarried : g.carried = c.row?.toList := by rw [carried_of_delivery hd, ← hc.row]
    rw [sent, sent, hcarried, carried_of_delivery rfl, Event.handedIn_cons]
    cases c <;> simp [Delivery.called, SinkCall.row?, Event.handedRow?]
  | stop hq₀ hd | close hq₀ hd =>
    cases hq.symm.trans hq₀
    cases hq'
    exact .inl ⟨hmove rfl (Hand.carried_move hd rfl rfl), fun kind => by cases kind <;> rfl⟩
  | unfinished hq₀ hd =>
    cases hq.symm.trans hq'
    exact .inl ⟨hmove rfl (Hand.carried_move hd rfl rfl), fun _ => rfl⟩
  | shutOwn hq₀ hd hdone | shutLast hq₀ hd hdone =>
    cases hq.symm.trans hq₀
    cases hq'
    refine .inl ⟨hmove rfl ?_, fun kind => by cases kind <;> rfl⟩
    rw [carried_of_delivery hd, hdone.clear.row]
    rfl

/-- The rows of values that a log tells of, in the order in which they were completed. -/
def Event.modelRowsIn (log : List Event) : List Row := rowsTold completedRow? .model log

theorem Event.modelRowsIn_quiet {e : Event} (h : e.completedRow? = none) (log : List Event) :
    modelRowsIn (e :: log) = modelRowsIn log :=
  rowsTold_quiet _ _ h log

theorem Event.modelRowsIn_error {row : Row} (h : row.kind = .error) (log : List Event) :
    modelRowsIn (.completed r row :: log) = modelRowsIn log := by
  simp [modelRowsIn, rowsTold, completedRow?, h]

theorem Event.modelRowsIn_model {row : Row} (h : row.kind = .model) (log : List Event) :
    modelRowsIn (.completed r row :: log) = modelRowsIn log ++ [row] := by
  simp [modelRowsIn, rowsTold, completedRow?, h]

/-- A row of a value is about to be completed: it has the id of the segment that is tried, and
refers to the rows that were issued by the try. -/
def Finishes (g : Hand κ) (q : Request κ) (row : Row) : Prop :=
  ∃ s is, g.progress = some (s, is) ∧ q.HasId s row.id ∧ row.references = is.map Issue.id

theorem Ambient.modelRowsIn (h : Ambient W r g v g' v') :
    Event.modelRowsIn v'.log = Event.modelRowsIn v.log := by
  cases h with
  | create => exact Event.modelRowsIn_quiet rfl _
  | say e he => exact Event.modelRowsIn_quiet he.completedRow? _
  | _ => rfl

theorem Visit.modelRowsIn (h : Visit r g v g' v') :
    Event.modelRowsIn v'.log = Event.modelRowsIn v.log := by
  cases h with
  | start | firstPing =>
    exact (Event.modelRowsIn_quiet rfl _).trans (Event.modelRowsIn_quiet rfl _)
  | flowAgain | ping => exact Event.modelRowsIn_quiet rfl _
  | _ => rfl

theorem Flushing.modelRowsIn (h : Flushing r g v g' v') :
    Event.modelRowsIn v'.log = Event.modelRowsIn v.log := by
  cases h with
  | openOwn | calling | called => exact Event.modelRowsIn_quiet rfl _
  | _ => rfl

/-- The rows of values that are completed stay as they are, but that a pass may complete one. -/
theorem Turn.modelRowsIn_cases (ht : Turn W r g v g' v') (hq : v.request = some q) :
    Event.modelRowsIn v'.log = Event.modelRowsIn v.log ∨
      ∃ row, v'.log = .completed r row :: v.log ∧ row.kind = .model ∧
        sent g' v'.log = sent g v.log ∧ Finishes g q row := by
  cases ht with
  | ambient h => exact .inl h.modelRowsIn
  | visit h => exact .inl h.modelRowsIn
  | flushing h => exact .inl h.modelRowsIn
  | working h =>
    cases h with
    | begin | skip | attempt | leave | defer => exact .inl (Event.modelRowsIn_quiet rfl _)
    | report => exact .inl ((Event.modelRowsIn_error rfl _).trans (Event.modelRowsIn_quiet rfl _))
    | fail => exact .inl (Event.modelRowsIn_error rfl _)
    | @complete _ b bs a seg strict depth value json hb ha hv hw hq₀ hseg =>
      cases hq.symm.trans hq₀
      refine .inr ⟨_, rfl, rfl, ?_, a.segment, a.issues, ?_, ⟨seg, hseg, rfl⟩, ?_⟩
      · rw [sent, sent, Event.handedIn_quiet rfl]
        rfl
      · exact (progress_top hb).trans (progress_of_attempt ha)
      · obtain ⟨tree, htree, hreferences⟩ := Serializer.serialize_cites hw
        rw [← hreferences]
        simp [Row.references, Row.ofModel, htree]
    | _ => exact .inl rfl

theorem Created.modelRowsIn (h : Created r g v) : Event.modelRowsIn v.log = [] := by
  obtain ⟨log, hlog, hasides⟩ := h.log
  have hnone : log.reverse.filterMap Event.completedRow? = [] :=
    List.filterMap_eq_nil_iff.mpr fun e he => (hasides e (List.mem_reverse.mp he)).completedRow?
  rw [hlog, Event.modelRowsIn_quiet rfl, Event.modelRowsIn, Event.rowsTold, hnone, List.filter_nil]

theorem Created.sent (h : Created r g v) : sent g v.log = [] := by
  obtain ⟨log, hlog, hasides⟩ := h.log
  obtain ⟨-, hhanded⟩ := Event.IsAside.quiets hasides
  rw [TreeStream.sent, Hand.carried, h.delivery, hlog, Event.handedIn_quiet rfl, hhanded]
  rfl

/-- The rows of values that are completed are those that were sent, followed by those queued. -/
theorem Course.modelRowsIn_eq (h : Course W r g v) (hq : v.request = some q) :
    Event.modelRowsIn v.log =
      (sent g v.log).filter (fun row => row.kind = .model) ++ q.modelRows := by
  refine Course.induct (P := fun g v q => Event.modelRowsIn v.log =
    (sent g v.log).filter (fun row => row.kind = .model) ++ q.modelRows) ?_ ?_ h hq
  · intro g v settings model hnew
    rw [hnew.modelRowsIn, hnew.sent]
    rfl
  · intro g v g' v' q q' hc ht hq hq' ih
    rcases ht.flushing_or_unheard hq hq' with hflush | ⟨events, hlog, hu⟩
    · rw [hflush.modelRowsIn, ih]
      rcases hflush.sent_cases hq hq' (hc.coherent.flushing q hq) with ⟨hsent, hrows⟩ |
        ⟨kind, row, hsent, htake⟩
      · rw [hsent, show q'.modelRows = q.modelRows from hrows .model]
      · have hkind : row.kind = kind :=
          (hc.serves hq).kind (by rw [htake.first]; exact List.mem_cons_self)
        rw [hsent, List.filter_append]
        cases kind with
        | model =>
          have hfirst : q.modelRows = row :: q'.modelRows := htake.first
          simp [hfirst, hkind]
        | error =>
          have hothers : q'.modelRows = q.modelRows := htake.others .model RowKind.noConfusion
          simp [hothers, hkind]
    · rw [hlog, hu.sent, show q'.modelRows = _ from hu.rows .model, ← List.append_assoc,
        show q.rows .model = q.modelRows from rfl, ← ih]
      exact Event.rowsTold_append _ _ _ _

theorem Event.kind_of_mem_modelRowsIn {log : List Event} {row : Row}
    (h : row ∈ Event.modelRowsIn log) : row.kind = .model := by
  simpa using (List.mem_filter.mp h).2

/-! ## Rows of values come after the rows that refer to them -/

theorem RowId.ofNat_mem_enumerate (a : Nat) {m n : Nat} (h : m < n) :
    RowId.ofNat (a + m) ∈ enumerate (.ofNat a) n := by
  obtain ⟨k, rfl⟩ := Nat.exists_eq_add_of_lt h
  rw [Nat.add_assoc, RowId.enumerate_add]
  exact List.mem_append_right _ List.mem_cons_self

theorem Turn.count_issued_le (h : Turn W r g v g' v') (id : RowId) :
    (Event.issuedIn v.log).count id ≤ (Event.issuedIn v'.log).count id := by
  obtain ⟨events, hlog⟩ := h.log
  rw [hlog, Event.issuedIn_append, List.count_append]
  exact Nat.le_add_right _ _

/-- What a try issues has neither the id of its segment nor that of a completed row of a value. -/
theorem Course.issues_fresh (h : Course W r g v) (hcalm : v.Calm r) (hq : v.request = some q)
    {s : SegmentId} {is : List (Issue κ)} (hp : g.progress = some (s, is)) {id : RowId}
    (hid : q.HasId s id ∨ ∃ row ∈ Event.modelRowsIn v.log, row.id = id)
    (hcount : (Event.issuedIn v.log).count id ≤ 1) : id ∉ is.map Issue.id := by
  have hcited := h.cited hcalm hq
  obtain ⟨t, ts, ht, -, hissued, ⟨m, hm, hsegment⟩, -⟩ := hcited.current s is hp
  have hended : ended g v.log = ts := by rw [ended, hp, ht]; rfl
  have hslices := Event.slices_tries v.log
  have henumerated := (h.balanced (h.apart hcalm) hq).issued
  rw [show (ledgerOf g v q).issued = Event.issuedIn v.log from rfl] at henumerated
  rw [ht] at hslices
  generalize Event.issuedIn v.log = all at hslices henumerated hcount
  cases hslices with
  | @cons ids _ _ hslices hbefore =>
    have hearlier : ∃ m < t.before, id = .ofNat m := by
      rcases hid with ⟨seg, hseg, rfl⟩ | ⟨row, hrow, rfl⟩
      · obtain ⟨seg', hseg', hm'⟩ := hsegment
        cases hseg.symm.trans hseg'
        exact ⟨m, hm, hm'⟩
      · have hmem : row ∈ rowsOf g v.log q := by
          rw [h.modelRowsIn_eq hq] at hrow
          rw [rowsOf, List.append_assoc]
          rcases List.mem_append.mp hrow with hsent | hqueued
          · refine List.mem_append_right _ (List.mem_append.mpr ?_)
            exact (List.mem_append.mp (List.mem_filter.mp hsent).1).symm
          · exact List.mem_append_left _ (List.mem_append_left _ hqueued)
        obtain ⟨t', ht', hexplains⟩ :=
          hcited.explained row hmem (Event.kind_of_mem_modelRowsIn hrow)
        obtain ⟨m', hm', hid', -⟩ := hexplains.earlier
        rw [hended] at ht'
        have hle : t'.before + t'.issued.length ≤ ids.length := hslices.after_le ht'
        exact ⟨m', by omega, hid'⟩
    obtain ⟨m', hm', rfl⟩ := hearlier
    have hfirst : ids = RowId.enumerate (.ofNat 0) ids.length := by
      rw [List.length_append, RowId.enumerate_add] at henumerated
      exact List.append_inj_left henumerated (RowId.length_enumerate _ _).symm
    have hmem : RowId.ofNat m' ∈ ids := by
      rw [hfirst, ← Nat.zero_add m']
      exact RowId.ofNat_mem_enumerate 0 (hbefore ▸ hm')
    intro hagain
    rw [← hissued] at hagain
    rw [List.count_append] at hcount
    have hone := List.count_pos_iff.mpr hmem
    have hother := List.count_pos_iff.mpr hagain
    omega

/-- A row of a value is completed after all rows that refer to it. -/
theorem Course.leads_model (h : Course W r g v) (hcalm : v.Calm r) (hq : v.request = some q) :
    Leads .model (Event.issuedIn v.log) (Event.modelRowsIn v.log) (Event.modelRowsIn v.log) := by
  refine Course.induct (P := fun _ v _ => v.Calm r → Leads .model (Event.issuedIn v.log)
    (Event.modelRowsIn v.log) (Event.modelRowsIn v.log)) ?_ ?_ h hq hcalm
  · intro g v settings model hnew _
    rw [hnew.modelRowsIn]
    exact .nil
  · intro g v g' v' q q' hc ht hq hq' ih hcalm
    have hbefore := ht.calm hcalm
    rcases ht.modelRowsIn_cases hq with htold | ⟨row, hlog, hkind, -, s, is, hp, hid, hreferences⟩
    · rw [htold]
      exact (ih hbefore).mono ht.count_issued_le fun citing hciting => .inl hciting
    · rw [hlog, Event.modelRowsIn_model hkind, Event.issuedIn_quiet rfl]
      refine ((ih hbefore).mono (fun _ => Nat.le_refl _) fun citing hciting => ?_).push ?_
      · rcases List.mem_append.mp hciting with hold | hnew
        · exact .inl hold
        · rw [List.mem_singleton.mp hnew, hreferences]
          exact .inr fun led hled _ hcount =>
            hc.issues_fresh hbefore hq hp (.inr ⟨led, hled, rfl⟩) hcount
      · intro _ hcount citing hciting hmem
        rcases List.mem_append.mp hciting with hold | hnew
        · exact hold
        · rw [List.mem_singleton.mp hnew, hreferences] at hmem
          exact absurd hmem (hc.issues_fresh hbefore hq hp (.inl hid) hcount)

end TreeStream

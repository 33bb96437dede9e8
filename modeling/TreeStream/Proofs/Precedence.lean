import TreeStream.Proofs.Lines
import TreeStream.Proofs.Ordering
import TreeStream.Proofs.Reentrance

/-!
# A reference precedes what it refers to

An error row that is issued by a try is queued before the row of the try is, so the order of the
queues does not keep it back. What does is that a flush takes error rows only once it has found no
row of a value left, and that no flush is under way while a segment is tried. The first fails where
the destination is saturated, the second where user code asks for a flow while it is called by a
try.
-/

namespace TreeStream

variable {κ σ : Type} {W : World κ} {r : RequestId} {g g' : Hand κ} {v v' : View κ}
  {q q' : Request κ} {log log' : List Event}

/-! ## Steady views -/

/-- A flow was asked for since a segment was last tried. -/
def Event.flowsInTry : List Event → Bool
  | [] => false
  | .retried _ _ :: _ => false
  | .flowed _ _ :: _ => true
  | _ :: log => flowsInTry log

/-- Some try has completed a row after a flow was asked for within the try. -/
def Event.isDisturbed : List Event → Bool
  | [] => false
  | .completed _ _ :: log => flowsInTry log || isDisturbed log
  | _ :: log => isDisturbed log

theorem Event.flowsInTry_cons {e : Event} (he : e.triedSegment? = none)
    (h : flowsInTry log = true) : flowsInTry (e :: log) = true := by
  cases e <;> first | rfl | exact h | cases he

theorem Event.isDisturbed_cons {e : Event} (h : isDisturbed (e :: log) = false) :
    isDisturbed log = false := by
  cases e with
  | completed r row => exact (Bool.or_eq_false_iff.mp h).2
  | _ => exact h

/-- No pass was nested, the destination was never saturated, and no try was disturbed. -/
structure View.Steady (r : RequestId) (v : View κ) : Prop where
  calm : v.Calm r
  welcome : ∀ c answer, Event.called r c answer ∈ v.log → c.isSaturation answer = false
  undisturbed : Event.isDisturbed v.log = false

theorem Turn.steady (h : Turn W r g v g' v') (hsteady : v'.Steady r) : v.Steady r := by
  obtain ⟨events, hlog⟩ := h.log
  refine ⟨h.calm hsteady.calm, fun c answer hmem => hsteady.welcome c answer ?_, ?_⟩
  · rw [hlog]
    exact List.mem_append_right events hmem
  · have hundisturbed := hsteady.undisturbed
    rw [hlog] at hundisturbed
    clear hlog
    induction events with
    | nil => exact hundisturbed
    | cons e events ih => exact ih (Event.isDisturbed_cons hundisturbed)

/-! ## Error rows are kept back -/

/-- While a segment is tried no flush is under way, unless a flow was asked for in the try. The
flush under way is not saturated, and no row of a value is queued once it found none. None of the
error rows that were sent was issued by the try under way. -/
structure KeepsBack (g : Hand κ) (log : List Event) (q : Request κ) : Prop where
  apart : g.progress ≠ none → g.delivery ≠ none → Event.flowsInTry log = true
  dry : ∀ d, g.delivery = some d → d.saturated = false ∧ (d.modelDry = true → q.modelRows = [])
  unsent : ∀ s is, g.progress = some (s, is) → ∀ row ∈ sent g log, row.kind = .error →
    (Event.issuedIn log).count row.id ≤ 1 → row.id ∈ is.map Issue.id →
      Event.flowsInTry log = true

namespace KeepsBack

theorem rest (h : KeepsBack g log q) (hp : g'.progress = none) (hd : g'.delivery = g.delivery)
    (hrows : g.delivery = none ∨ q'.modelRows = q.modelRows) : KeepsBack g' log' q' := by
  refine ⟨fun hne => absurd hp hne, fun d hd' => ?_, fun s is hp' => nomatch hp.symm.trans hp'⟩
  rw [hd] at hd'
  rcases hrows with hnone | hsame
  · cases hnone.symm.trans hd'
  · rw [hsame]
    exact h.dry d hd'

/-- The flush stays as it is, and so does what is tried. -/
theorem around (h : KeepsBack g log q) (hp : g'.progress = g.progress)
    (hd : g'.delivery = g.delivery) (hrows : q'.modelRows = q.modelRows)
    (hsent : sent g' log' = sent g log)
    (hids : ∀ id, (Event.issuedIn log).count id ≤ (Event.issuedIn log').count id)
    (hflows : Event.flowsInTry log = true → Event.flowsInTry log' = true) :
    KeepsBack g' log' q' := by
  refine ⟨fun hne hne' => hflows (h.apart (hp ▸ hne) (hd ▸ hne')), fun d hd' => ?_,
    fun s is hp' row hrow hkind hcount hmem => ?_⟩
  · rw [hrows]
    exact h.dry d (hd ▸ hd')
  · rw [hsent] at hrow
    exact hflows (h.unsent s is (hp ▸ hp') row hrow hkind (Nat.le_trans (hids _) hcount) hmem)

theorem move (h : KeepsBack g log q) (hne : g.delivery ≠ none)
    (hp : g'.progress = none ∨ g'.progress = g.progress)
    (hflows : Event.flowsInTry log = true → Event.flowsInTry log' = true)
    (hdry : ∀ d, g'.delivery = some d →
      d.saturated = false ∧ (d.modelDry = true → q'.modelRows = [])) : KeepsBack g' log' q' := by
  have hflowed : g'.progress ≠ none → Event.flowsInTry log' = true := by
    intro htried
    exact hflows (h.apart (fun hnone => htried (hp.elim id fun hsame => hsame.trans hnone)) hne)
  refine ⟨fun htried _ => hflowed htried, hdry, fun s is hp' _ _ _ _ _ => hflowed ?_⟩
  rw [hp']
  exact Option.some_ne_none _

/-- An id is given out by a try. No row that was sent has it, unless it was given out before. -/
theorem issue (h : KeepsBack g log q) {s : SegmentId} {is : List (Issue κ)} {i : Issue κ}
    (hp : g.progress = some (s, is)) (hp' : g'.progress = some (s, is ++ [i]))
    (hd : g'.delivery = g.delivery) (hrows : q'.modelRows = q.modelRows)
    (hsent : sent g' log' = sent g log)
    (hids : Event.issuedIn log' = Event.issuedIn log ++ [i.id])
    (hgiven : ∀ row ∈ sent g log, row.id ∈ Event.issuedIn log)
    (hflows : Event.flowsInTry log = true → Event.flowsInTry log' = true) :
    KeepsBack g' log' q' := by
  refine ⟨fun _ hne => hflows (h.apart (by simp [hp]) (hd ▸ hne)), fun d hd' => ?_,
    fun s' is' hp'' row hrow hkind hcount hmem => hflows ?_⟩
  · rw [hrows]
    exact h.dry d (hd ▸ hd')
  · cases hp'.symm.trans hp''
    rw [hsent] at hrow
    rw [hids, List.count_append] at hcount
    rw [List.map_append, List.mem_append] at hmem
    rcases hmem with hold | hnew
    · exact h.unsent s is hp row hrow hkind (by omega) hold
    · have hfirst := List.count_pos_iff.mpr (hgiven row hrow)
      have hsecond : 0 < [i.id].count row.id := List.count_pos_iff.mpr hnew
      omega

end KeepsBack

theorem Flushing.keepsBack (h : Flushing r g v g' v') (hq : v.request = some q)
    (hq' : v'.request = some q') (hsteady : v'.Steady r)
    (hlone : ∀ {b l}, g.passes = b :: l → l = []) (ih : KeepsBack g v.log q) :
    KeepsBack g' v'.log q' := by
  cases h with
  | openOwn hq₀ =>
    cases hq'
    refine ⟨fun _ _ => rfl, fun d hd => ?_, fun _ _ _ _ _ _ _ _ => rfl⟩
    cases hd
    exact ⟨rfl, Bool.noConfusion⟩
  | openLast hq₀ hf hb hs ha =>
    cases hq'
    have hnone : g.progress = none := (progress_top hb).trans (progress_of_none ha)
    refine ⟨fun hne => absurd hnone hne, fun d hd => ?_, fun s is hp => ?_⟩
    · cases hd
      exact ⟨rfl, Bool.noConfusion⟩
    · cases hnone.symm.trans hp
  | @take _ d row rest kind hq₀ hd hn hs hd' hr =>
    cases hq.symm.trans hq₀
    cases hq'
    refine ih.move (by simp [hd]) (.inr rfl) id fun d₁ hd₁ => ?_
    cases hd₁
    refine ⟨(ih.dry d hd).1, fun hdry => ?_⟩
    have hempty := (ih.dry d hd).2 hdry
    cases kind with
    | model => cases hempty.symm.trans hr
    | error => exact hempty
  | runDry kind hq₀ hd hr =>
    cases hq.symm.trans hq₀
    cases hq.symm.trans hq'
    refine ih.move (by simp [hd]) (.inr rfl) id fun d₁ hd₁ => ?_
    cases hd₁
    cases kind with
    | model => exact ⟨(ih.dry _ hd).1, fun _ => hr⟩
    | error => exact (ih.dry _ hd :)
  | calling c hq₀ hd =>
    cases hq.symm.trans hq'
    refine ih.move (by simp [hd]) (.inr rfl) (Event.flowsInTry_cons rfl) fun d₁ hd₁ => ?_
    cases hd₁
    exact (ih.dry _ hd :)
  | @called d c answer hd hc =>
    cases hq.symm.trans hq'
    refine ih.move (by simp [hd]) (.inr rfl) (Event.flowsInTry_cons rfl) fun d₁ hd₁ => ?_
    cases hd₁
    refine ⟨?_, (ih.dry _ hd).2⟩
    have hunsaturated : d.saturated = false := (ih.dry _ hd).1
    have hanswer : c.isSaturation answer = false := hsteady.welcome c answer List.mem_cons_self
    simp [Delivery.called, hunsaturated, hanswer]
  | stop hq₀ hd | close hq₀ hd =>
    cases hq.symm.trans hq₀
    cases hq'
    refine ih.move (by simp [hd]) (.inr rfl) id fun d₁ hd₁ => ?_
    cases hd₁
    exact (ih.dry _ hd :)
  | unfinished hq₀ hd =>
    cases hq.symm.trans hq'
    refine ih.move (by simp [hd]) (.inr rfl) id fun d₁ hd₁ => ?_
    cases hd₁
    exact (ih.dry _ hd :)
  | shutOwn hq₀ hd =>
    refine ih.move (by simp [hd]) (.inr rfl) id fun d₁ hd₁ => ?_
    cases hd₁
  | shutLast hq₀ hd hdone ho hb =>
    refine ih.move (by simp [hd]) (.inl ?_) id fun d₁ hd₁ => ?_
    · rw [Hand.progress, hlone hb]
      rfl
    · cases hd₁

theorem Working.keepsBack (h : Working W r g v g' v') (hq : v.request = some q)
    (hq' : v'.request = some q') (hsteady : v'.Steady r)
    (hlone : ∀ {b l}, g.passes = b :: l → l = [])
    (hinFlush : ∀ b ∈ g.passes, b.inFlush = false)
    (hgiven : ∀ row ∈ sent g v.log, row.id ∈ Event.issuedIn v.log) (ih : KeepsBack g v.log q) :
    KeepsBack g' v'.log q' := by
  have hsent {log : List Event} (hd : g'.delivery = g.delivery)
      (hlog : Event.handedIn log = Event.handedIn v.log) : sent g' log = sent g v.log := by
    rw [sent, sent, hlog, Hand.carried_eq hd]
  cases h with
  | begin hq₀ =>
    cases hq.symm.trans hq₀
    cases hq'
    exact ih.rest rfl rfl (.inr rfl)
  | skip hb hs ha | leave hb ha =>
    cases hq.symm.trans hq'
    refine ih.rest ?_ rfl (.inr rfl)
    rw [progress_top rfl, PassState.progress, ha]
    rfl
  | @attempt _ b bs s ss seg hb hs ha hq₀ hseg hc hd =>
    have hnone : g.delivery = none := by
      rw [hinFlush b (hb ▸ List.mem_cons_self)] at hd
      exact Option.not_isSome_iff_eq_none.mp (Bool.eq_false_iff.mp hd)
    refine ⟨fun _ hne => absurd hnone hne, fun d hd' => ?_, fun s' is hp row _ _ _ hmem => ?_⟩
    · cases hnone.symm.trans hd'
    · cases hp
      cases hmem
  | value hb ha | layer hb ha =>
    cases hq.symm.trans hq'
    refine ih.around ?_ rfl rfl rfl (fun _ => Nat.le_refl _) id
    rw [progress_top hb, progress_of_attempt ha]
    rfl
  | memo hb ha hv hq₀ =>
    cases hq.symm.trans hq₀
    cases hq'
    exact ih.around rfl rfl rfl rfl (fun _ => Nat.le_refl _) id
  | wait hb ha hi =>
    cases hq.symm.trans hq'
    exact ih.rest rfl rfl (.inr rfl)
  | @defer _ b bs a query hb ha hv hq₀ =>
    cases hq.symm.trans hq₀
    cases hq'
    exact ih.issue (i := .segment ⟨q.segments.size⟩ q.nextId query)
      ((progress_top hb).trans (progress_of_attempt ha)) rfl rfl rfl
      (hsent rfl (Event.handedIn_quiet rfl _)) (Event.issuedIn_cons _ _) hgiven
      (Event.flowsInTry_cons rfl)
  | @report _ b bs a e hb ha hv hq₀ =>
    cases hq.symm.trans hq₀
    cases hq'
    refine ih.issue (i := .error q.nextId e)
      ((progress_top hb).trans (progress_of_attempt ha)) rfl rfl rfl
      (hsent rfl ((Event.handedIn_quiet rfl _).trans (Event.handedIn_quiet rfl _))) ?_ hgiven
      fun hflows => Event.flowsInTry_cons rfl (Event.flowsInTry_cons rfl hflows)
    rw [Event.issuedIn_quiet rfl]
    exact Event.issuedIn_cons _ _
  | complete hb ha hv hw hq₀ =>
    cases hq.symm.trans hq₀
    cases hq'
    refine ih.rest rfl rfl (.inl (Classical.not_not.mp fun hne => ?_))
    have hp := (progress_top hb).trans (progress_of_attempt ha)
    have hflows := ih.apart (by simp [hp]) hne
    have hnone := (Bool.or_eq_false_iff.mp hsteady.undisturbed).1
    exact absurd (hnone.symm.trans hflows) Bool.false_ne_true
  | fail hb ha hw hq₀ =>
    cases hq.symm.trans hq₀
    cases hq'
    exact ih.rest rfl rfl (.inr rfl)
  | finish hb hs ha =>
    cases hq.symm.trans hq'
    refine ih.rest ?_ rfl (.inr rfl)
    rw [Hand.progress, hlone hb]
    rfl

theorem Course.id_of_mem_sent (h : Course W r g v) (hcalm : v.Calm r) (hq : v.request = some q)
    {row : Row} (hrow : row ∈ sent g v.log) : row.id ∈ Event.issuedIn v.log := by
  refine (h.balanced (h.apart hcalm) hq).perm.subset (List.mem_append_right _ (List.mem_map_of_mem ?_))
  rw [List.append_assoc]
  exact List.mem_append_right _ (List.mem_append.mpr (List.mem_append.mp hrow).symm)

theorem Course.keepsBack (h : Course W r g v) (hsteady : v.Steady r) (hq : v.request = some q) :
    KeepsBack g v.log q := by
  refine Course.induct (P := fun g v q => v.Steady r → KeepsBack g v.log q) ?_ ?_ h hq hsteady
  · intro g v settings model hnew _
    have hprogress : g.progress = none := by
      rw [Hand.progress, hnew.passes]
      rfl
    refine ⟨fun hne => absurd hprogress hne, fun d hd => ?_, fun s is hp => ?_⟩
    · cases hnew.delivery.symm.trans hd
    · cases hprogress.symm.trans hp
  · intro g v g' v' q q' hc ht hq hq' ih hsteady
    have hbefore := ht.steady hsteady
    have ih := ih hbefore
    have hlone {b : PassState κ} {l} (hb : g.passes = b :: l) : l = [] :=
      hc.passes_eq hbefore.calm hb
    have hcalled (hu : ∃ events, v'.log = events ++ v.log ∧ Unheard g q g' q' events)
        (htold : Event.modelRowsIn v'.log = Event.modelRowsIn v.log)
        (hpasses : g'.passes = g.passes)
        (hflows : Event.flowsInTry v.log = true → Event.flowsInTry v'.log = true) :
        KeepsBack g' v'.log q' := by
      obtain ⟨events, hlog, hu⟩ := hu
      have hsent : sent g' v'.log = sent g v.log := by rw [hlog, hu.sent]
      rw [(hc.turn ht).modelRowsIn_eq hq', hc.modelRowsIn_eq hq, hsent] at htold
      exact ih.around (Hand.progress_eq hpasses) hu.delivery (List.append_cancel_left htold) hsent
        ht.count_issued_le hflows
    cases ht with
    | ambient h =>
      refine hcalled (h.unheard hq hq') h.modelRowsIn h.hand_eq.1 fun hflows => ?_
      cases h with
      | create => exact Event.flowsInTry_cons rfl hflows
      | say e he => exact Event.flowsInTry_cons he.isQuiet.tried hflows
      | _ => exact hflows
    | visit h =>
      refine hcalled (h.unheard hq hq') h.modelRowsIn h.hand_eq.1 fun hflows => ?_
      cases h with
      | start | firstPing => exact Event.flowsInTry_cons rfl (Event.flowsInTry_cons rfl hflows)
      | flowAgain | ping => exact Event.flowsInTry_cons rfl hflows
      | _ => exact hflows
    | flushing h => exact h.keepsBack hq hq' hsteady hlone ih
    | working h =>
      exact h.keepsBack hq hq' hsteady hlone (hc.ordered hbefore.calm).inFlush
        (fun row hrow => hc.id_of_mem_sent hbefore.calm hq hrow) ih

/-- As long as the request is steady, an error row leaves its queue after all rows that refer to
it. -/
theorem Course.leads_error (h : Course W r g v) (hsteady : v.Steady r) (hq : v.request = some q) :
    Leads .error (Event.issuedIn v.log) (Event.modelRowsIn v.log) (sent g v.log) := by
  refine Course.induct (P := fun g v _ => v.Steady r → Leads .error (Event.issuedIn v.log)
    (Event.modelRowsIn v.log) (sent g v.log)) ?_ ?_ h hq hsteady
  · intro g v settings model hnew _
    rw [hnew.sent]
    exact .nil
  · intro g v g' v' q q' hc ht hq hq' ih hsteady
    have hbefore := ht.steady hsteady
    have hback := hc.keepsBack hbefore hq
    rcases ht.modelRowsIn_cases hq with htold | ⟨row, hlog, hkind, hsent, s, is, hp, -, hreferences⟩
    · have hold : Leads .error (Event.issuedIn v'.log) (Event.modelRowsIn v'.log)
          (sent g v.log) :=
        (ih hbefore).mono ht.count_issued_le fun citing hciting => .inl (htold ▸ hciting)
      rcases ht.flushing_or_unheard hq hq' with hflush | ⟨events, hlog, hu⟩
      · rcases hflush.sent_cases hq hq' (hc.coherent.flushing q hq) with ⟨hsent, -⟩ |
          ⟨kind, row, hsent, htake⟩
        · rwa [hsent]
        · rw [hsent]
          refine hold.push fun herror _ citing hciting _ => ?_
          have hkind : row.kind = kind :=
            (hc.serves hq).kind (by rw [htake.first]; exact List.mem_cons_self)
          obtain ⟨d, hd, hw⟩ := htake.writing
          obtain ⟨hunsaturated, hdry⟩ := hback.dry d hd
          have hempty : q.modelRows = [] := by
            refine hdry ((hw (hkind.symm.trans herror)).resolve_left fun hs => ?_)
            exact nomatch hunsaturated.symm.trans hs
          rw [htold, hc.modelRowsIn_eq hq, hempty, List.append_nil] at hciting
          exact (List.mem_filter.mp hciting).1
      · rwa [hlog, hu.sent, ← hlog]
    · rw [hsent, hlog, Event.modelRowsIn_model hkind, Event.issuedIn_quiet rfl]
      refine (ih hbefore).mono (fun _ => Nat.le_refl _) fun citing hciting => ?_
      rcases List.mem_append.mp hciting with hold | hnew
      · exact .inl hold
      · rw [List.mem_singleton.mp hnew, hreferences]
        refine .inr fun sentRow hrow herror hcount hmem => ?_
        have hflows := hback.unsent s is hp sentRow hrow herror hcount hmem
        have hundisturbed := hsteady.undisturbed
        rw [hlog] at hundisturbed
        exact nomatch hflows.symm.trans (Bool.or_eq_false_iff.mp hundisturbed).1

namespace Host

/-- In every state that a session without nested passes reaches, whether or not the destination
fails or is saturated: rows of values are handed over in the order in which they were completed, and
after all rows that refer to them. Error rows too are handed over after all rows that refer to them,
as long as the destination never says that it wants no more rows and no flow is asked for by user
code that is called by a try. An id that was given out twice, as may happen after `2 ^ 32` of them,
does not tell which row is referred to. -/
theorem references_precede (user : UserCode κ σ) {h : Host κ σ}
    (hr : Reachable user (fun _ => True) h) {r : RequestId} {q : Request κ}
    (hq : h.requests[r.index]? = some q) (hu : h.Unnested r) :
    (h.completed r).filter (fun row => row.kind = .model) =
      (h.handed r).filter (fun row => row.kind = .model) ++ q.modelRows ∧
    Leads .model (h.issued r) (h.rows r q) (h.handed r) ∧
    ((∀ c answer, .called r c answer ∈ h.journal → c.isSaturation answer = false) →
      Event.isDisturbed (h.view r).log = false →
        Leads .error (h.issued r) (h.rows r q) (h.handed r)) := by
  have hcourse := hr.course_any r
  have hsent : sent ({} : Hand κ) (h.view r).log = h.handed r := List.append_nil _
  have htold : Event.modelRowsIn (h.view r).log =
      (h.handed r).filter (fun row => row.kind = .model) ++ q.modelRows := by
    rw [← hsent]
    exact hcourse.modelRowsIn_eq (q := q) hq
  have hcites {line : List Row} {kind : RowKind}
      (hl : Leads kind (h.issued r) (Event.modelRowsIn (h.view r).log) line) :
      Leads kind (h.issued r) (h.rows r q) line := by
    refine hl.mono (fun _ => Nat.le_refl _) fun citing hciting => ?_
    cases hkind : citing.kind with
    | model =>
      left
      rw [htold]
      rcases List.mem_append.mp hciting with hqueued | hhanded
      · refine List.mem_append_right _ ((List.mem_append.mp hqueued).resolve_right fun he => ?_)
        have herror : citing ∈ q.rows .error := he
        exact nomatch hkind.symm.trans ((hcourse.serves (q := q) hq).kind herror)
      · exact List.mem_append_left _ (List.mem_filter.mpr ⟨hhanded, by simpa using hkind⟩)
    | error =>
      right
      intro row hrow _ _ hmem
      exact nomatch hkind.symm.trans (Row.kind_of_mem_references hmem)
  refine ⟨htold, hcites ?_, fun hwelcome hundisturbed => hcites ?_⟩
  · refine .of_filter q.modelRows ?_
    rw [← htold]
    exact hcourse.leads_model hu.calm (q := q) hq
  · rw [← hsent]
    have hsteady : (h.view r).Steady r :=
      ⟨hu.calm, fun c answer hmem => hwelcome c answer (mem_journal_of_log hmem), hundisturbed⟩
    exact hcourse.leads_error hsteady (q := q) hq

/-- The first row refers to an error row and to the row of the late component, and is written before
both. -/
theorem references_precede_crowd :
    ∃ (h : Host Unit Unit) (q : Request Unit),
      Reachable Late.user (fun _ => True) h ∧ h.requests[0]? = some q ∧ h.Unnested ⟨0⟩ ∧
      (∀ c answer, .called ⟨0⟩ c answer ∈ h.journal → c.isSaturation answer = false) ∧
      Event.isDisturbed (h.view ⟨0⟩).log = false ∧
      (h.handed ⟨0⟩).map (fun row => (row.kind, row.id)) =
        [(.model, RowId.ofNat 0), (.error, RowId.ofNat 1), (.model, RowId.ofNat 2)] ∧
      (h.handed ⟨0⟩).map Row.references = [[RowId.ofNat 1, RowId.ofNat 2], [], []] ∧
      Leads .model (h.issued ⟨0⟩) (h.rows ⟨0⟩ q) (h.handed ⟨0⟩) ∧
      Leads .error (h.issued ⟨0⟩) (h.rows ⟨0⟩ q) (h.handed ⟨0⟩) := by
  obtain ⟨h, q, hr, hq, hp⟩ := exists_reachable (r := ⟨0⟩) (n := 20) Late.user
    Late.restarting_makes
    (fun h q => decide (h.Unnested ⟨0⟩ ∧ h.journal.any Event.isRefusal = false ∧
      Event.isDisturbed (h.view ⟨0⟩).log = false ∧
      (h.handed ⟨0⟩).map (fun row => (row.kind, row.id)) =
        [(.model, RowId.ofNat 0), (.error, RowId.ofNat 1), (.model, RowId.ofNat 2)] ∧
      (h.handed ⟨0⟩).map Row.references = [[RowId.ofNat 1, RowId.ofNat 2], [], []]))
    (by decide +kernel :
      (play Late.user () #[] Late.settings Late.crowd Late.restarting 20).any _ = true)
  obtain ⟨hu, hall, hundisturbed, hkinds, hreferences⟩ := of_decide_eq_true hp
  have hwelcome : ∀ c answer, .called ⟨0⟩ c answer ∈ h.journal → c.isSaturation answer = false := by
    intro c answer hmem
    have hrefusal : c.isRefusal answer = false :=
      Bool.eq_false_iff.mpr (List.any_eq_false.mp hall _ hmem)
    exact (Bool.or_eq_false_iff.mp hrefusal).2
  obtain ⟨-, hmodel, herror⟩ := references_precede Late.user hr hq hu
  exact ⟨h, q, hr, hq, hu, hwelcome, hundisturbed, hkinds, hreferences, hmodel,
    herror hwelcome hundisturbed⟩

end Host
end TreeStream

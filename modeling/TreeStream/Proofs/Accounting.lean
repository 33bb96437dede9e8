import TreeStream.Proofs.Nesting
import TreeStream.Proofs.Sessions

/-!
# Where every id is

A ledger lists the ids that a request has given out and where they are: with a segment that is still
open, with a row that is queued, with the row that a flush carries, or with a row that was handed
to the destination. Six kinds of entries are made in it, and each keeps it balanced.
-/

namespace TreeStream

variable {κ σ : Type}

/-! ## What events tell -/

def Event.issuedId? : Event → Option RowId
  | issued _ id => some id
  | _ => none

/-- The row that an event hands to the destination, whether it is welcome or not. -/
def Event.handedRow? : Event → Option Row
  | called _ (.write row) _ => some row
  | _ => none

/-- The ids that a log tells of, oldest first. -/
def Event.issuedIn (log : List Event) : List RowId := log.reverse.filterMap issuedId?

def Event.handedIn (log : List Event) : List Row := log.reverse.filterMap handedRow?

theorem Event.issuedIn_cons (e : Event) (log : List Event) :
    issuedIn (e :: log) = issuedIn log ++ e.issuedId?.toList := by
  rw [issuedIn, List.reverse_cons, List.filterMap_append]
  cases h : e.issuedId? <;> simp [issuedIn, h]

theorem Event.issuedIn_append (events log : List Event) :
    issuedIn (events ++ log) = issuedIn log ++ issuedIn events := by
  rw [issuedIn, List.reverse_append, List.filterMap_append]
  rfl

theorem Event.handedIn_cons (e : Event) (log : List Event) :
    handedIn (e :: log) = handedIn log ++ e.handedRow?.toList := by
  rw [handedIn, List.reverse_cons, List.filterMap_append]
  cases h : e.handedRow? <;> simp [handedIn, h]

theorem Event.issuedIn_quiet {e : Event} (h : e.issuedId? = none) (log : List Event) :
    issuedIn (e :: log) = issuedIn log := by
  rw [issuedIn_cons, h, Option.toList_none, List.append_nil]

theorem Event.handedIn_quiet {e : Event} (h : e.handedRow? = none) (log : List Event) :
    handedIn (e :: log) = handedIn log := by
  rw [handedIn_cons, h, Option.toList_none, List.append_nil]

theorem Event.IsAside.quiet {e : Event} (h : e.IsAside) :
    e.issuedId? = none ∧ e.handedRow? = none := by
  cases e <;> first | exact ⟨rfl, rfl⟩ | exact h.elim

/-! ## Open segments -/

/-- The ids of the segments that are not completed. -/
def Request.openIds (q : Request κ) : List RowId :=
  (q.segments.toList.filter fun seg => !seg.completed).map Segment.id

def Request.queued (q : Request κ) : List Row := q.modelRows ++ q.errorRows

theorem Request.openIds_push {q q' : Request κ} {id : RowId} {query : Query κ}
    (hseg : q'.segments = q.segments.push { id := id, query := query }) :
    q'.openIds = q.openIds ++ [id] := by
  simp [Request.openIds, hseg]

theorem Request.openIds_query {q q' : Request κ} {i : Nat} {query : Query κ}
    (hseg : q'.segments = q.segments.modify i fun seg => { seg with query := query }) :
    q'.openIds = q.openIds := by
  rw [Request.openIds, Request.openIds, hseg, Array.toList_modify]
  by_cases hi : i < q.segments.toList.length
  · obtain ⟨before, seg, after, hl, -, hm⟩ :=
      List.exists_of_modify (fun seg => { seg with query := query }) hi
    rw [hm, hl]
    cases hc : seg.completed <;> simp [List.filter_append, hc]
  · rw [List.modify_eq_self (by omega)]

/-- Completing a segment takes its id from the open ones. -/
theorem Request.openIds_complete {q : Request κ} {i : Nat} {seg : Segment κ}
    (hs : q.segments[i]? = some seg) (hc : seg.completed = false) :
    q.openIds.Perm (seg.id :: Request.openIds
      { q with segments := q.segments.modify i fun seg => { seg with completed := true } }) := by
  obtain ⟨hi, hget⟩ := Array.getElem?_eq_some_iff.mp hs
  obtain ⟨before, seg', after, hl, hlen, hm⟩ :=
    List.exists_of_modify (fun seg => { seg with completed := true })
      (show i < q.segments.toList.length by simpa using hi)
  obtain rfl : seg' = seg := by
    rw [← Array.getElem?_toList, hl, ← hlen] at hs
    simpa using hs
  rw [Request.openIds, Request.openIds, Array.toList_modify, hm, hl]
  simp [List.filter_append, hc]

theorem Request.rows_perm {q : Request κ} {kind : RowKind} {row : Row} {rest : List Row}
    (h : q.rows kind = row :: rest) :
    q.queued.Perm (row :: (q.setRows kind rest).queued) := by
  cases kind with
  | model =>
    change q.modelRows = _ at h
    simp [Request.queued, Request.setRows, h]
  | error =>
    change q.errorRows = _ at h
    simp [Request.queued, Request.setRows, h]

/-! ## Ledgers -/

/-- The account of a request. -/
structure Ledger where
  opened : List RowId
  queued : List Row
  carried : List Row
  handed : List Row
  issued : List RowId
  nextId : RowId
  pending : Nat
  closed : Bool

namespace Ledger

/-- How often an id stands in the places where ids can be. -/
def places (l : Ledger) (id : RowId) : Nat :=
  l.opened.count id + (l.queued.map Row.id).count id + (l.carried.map Row.id).count id +
    (l.handed.map Row.id).count id

/-- Each id given out is in one place, ids are given out in order, the rows still to be written are
counted right, and nothing is left once the request is closed. -/
structure Balanced (l : Ledger) : Prop where
  places : ∀ id, l.places id = l.issued.count id
  issued : l.issued = RowId.enumerate (.ofNat 0) l.issued.length
  nextId : l.nextId = RowId.ofNat l.issued.length
  pending : l.pending = l.opened.length + l.queued.length
  closed : l.closed = true → l.pending = 0

end Ledger

theorem RowId.next_ofNat (n : Nat) : (RowId.ofNat n).next = RowId.ofNat (n + 1) := by
  simp [RowId.next, RowId.ofNat, UInt32.ofNat_add]

theorem RowId.enumerate_add (m a b : Nat) :
    enumerate (.ofNat m) (a + b) = enumerate (.ofNat m) a ++ enumerate (.ofNat (m + a)) b := by
  induction a generalizing m with
  | zero => simp [enumerate]
  | succ a ih =>
    rw [Nat.succ_add, enumerate, next_ofNat, ih (m + 1), enumerate, next_ofNat, List.cons_append]
    congr 4
    omega

theorem RowId.enumerate_succ (m n : Nat) :
    enumerate (.ofNat m) (n + 1) = enumerate (.ofNat m) n ++ [.ofNat (m + n)] :=
  enumerate_add m n 1

namespace Ledger.Balanced

variable {l : Ledger}

theorem enumerate_next (h : l.Balanced) :
    l.issued ++ [l.nextId] = RowId.enumerate (.ofNat 0) (l.issued ++ [l.nextId]).length := by
  rw [List.length_append, List.length_singleton, RowId.enumerate_succ, ← h.issued, h.nextId,
    Nat.zero_add]

theorem next_next (h : l.Balanced) :
    l.nextId.next = RowId.ofNat (l.issued ++ [l.nextId]).length := by
  rw [List.length_append, List.length_singleton, h.nextId, RowId.next_ofNat]

theorem issueSegment (h : l.Balanced) (ho : l.closed = false) :
    Balanced
      { l with
        opened := l.opened ++ [l.nextId]
        issued := l.issued ++ [l.nextId]
        nextId := l.nextId.next
        pending := l.pending + 1 } := by
  refine ⟨fun id => ?_, h.enumerate_next, h.next_next, ?_, fun hc => ?_⟩
  · have := h.places id
    simp only [Ledger.places, List.count_append] at this ⊢
    omega
  · simp only [h.pending, List.length_append, List.length_singleton]
    omega
  · exact nomatch ho.symm.trans hc

theorem issueRow (h : l.Balanced) (ho : l.closed = false) {row : Row} (hrow : row.id = l.nextId)
    {queued : List Row} (hq : queued.Perm (row :: l.queued)) :
    Balanced
      { l with
        queued := queued
        issued := l.issued ++ [l.nextId]
        nextId := l.nextId.next
        pending := l.pending + 1 } := by
  refine ⟨fun id => ?_, h.enumerate_next, h.next_next, ?_, fun hc => ?_⟩
  · have := h.places id
    have hcount := (hq.map Row.id).count_eq id
    simp only [Ledger.places, List.count_append, List.map_cons, List.count_cons, hrow,
      List.count_nil] at this hcount ⊢
    omega
  · simp only [h.pending, hq.length_eq, List.length_cons]
    omega
  · exact nomatch ho.symm.trans hc

theorem finish (h : l.Balanced) (row : Row) {opened : List RowId} {queued : List Row}
    (ho : l.opened.Perm (row.id :: opened)) (hq : queued.Perm (row :: l.queued)) :
    Balanced { l with opened := opened, queued := queued } := by
  refine ⟨fun id => ?_, h.issued, h.nextId, ?_, h.closed⟩
  · have := h.places id
    have hcount := (hq.map Row.id).count_eq id
    have hcount' := ho.count_eq id
    simp only [Ledger.places, List.map_cons, List.count_cons] at this hcount hcount' ⊢
    omega
  · have := h.pending
    have hlength := hq.length_eq
    have hlength' := ho.length_eq
    simp only [List.length_cons] at hlength hlength' ⊢
    omega

theorem take (h : l.Balanced) {row : Row} {queued : List Row}
    (hq : l.queued.Perm (row :: queued)) (hc : l.carried = []) :
    Balanced { l with queued := queued, carried := [row], pending := l.pending - 1 } := by
  have hlength := hq.length_eq
  have hpending := h.pending
  simp only [List.length_cons] at hlength
  refine ⟨fun id => ?_, h.issued, h.nextId, ?_, fun hclosed => ?_⟩
  · have := h.places id
    have hcount := (hq.map Row.id).count_eq id
    simp only [Ledger.places, hc, List.map_cons, List.map_nil, List.count_cons, List.count_nil]
      at this hcount ⊢
    omega
  · simp only
    omega
  · have := h.closed hclosed
    simp only
    omega

theorem hand (h : l.Balanced) (row : Row) (hc : l.carried = [row]) :
    Balanced { l with carried := [], handed := l.handed ++ [row] } := by
  refine ⟨fun id => ?_, h.issued, h.nextId, h.pending, h.closed⟩
  have := h.places id
  simp only [Ledger.places, hc, List.map_append, List.count_append, List.map_nil,
    List.count_nil] at this ⊢
  omega

theorem close (h : l.Balanced) (hp : l.pending = 0) : Balanced { l with closed := true } :=
  ⟨h.places, h.issued, h.nextId, h.pending, fun _ => hp⟩

end Ledger.Balanced

theorem Ledger.Balanced.empty_of_closed {l : Ledger} (h : l.Balanced) (hc : l.closed = true) :
    l.opened = [] ∧ l.queued = [] := by
  have hnone : l.opened.length + l.queued.length = 0 := h.pending.symm.trans (h.closed hc)
  exact ⟨List.length_eq_zero_iff.mp (by omega), List.length_eq_zero_iff.mp (by omega)⟩

/-! ## The ledger of a course -/

variable {W : World κ} {r : RequestId} {g g' : Hand κ} {v v' : View κ} {q q' : Request κ}

/-- The row that a flush carries to the destination. -/
def Hand.carried (g : Hand κ) : List Row :=
  match g.delivery with
  | some d => d.row.toList
  | none => []

def ledgerOf (g : Hand κ) (v : View κ) (q : Request κ) : Ledger where
  opened := q.openIds
  queued := q.queued
  carried := g.carried
  handed := Event.handedIn v.log
  issued := Event.issuedIn v.log
  nextId := q.nextId
  pending := q.pending
  closed := q.closed

theorem Ledger.Balanced.perm {l : Ledger} (h : l.Balanced) :
    (l.opened ++ (l.queued ++ l.carried ++ l.handed).map Row.id).Perm l.issued := by
  refine List.perm_iff_count.mpr fun id => ?_
  have := h.places id
  simp only [Ledger.places, List.map_append, List.count_append] at this ⊢
  omega

/-- No entry is made for events that tell nothing about ids. -/
theorem Ledger.Balanced.tell (hb : (ledgerOf g v q).Balanced) {e : Event}
    (hi : e.issuedId? = none) (hh : e.handedRow? = none) :
    (ledgerOf g { v with log := e :: v.log } q).Balanced := by
  rw [ledgerOf, Event.issuedIn_quiet hi, Event.handedIn_quiet hh]
  exact hb

theorem Ambient.balanced (h : Ambient W r g v g' v') (hq : v.request = some q)
    (hb : (ledgerOf g v q).Balanced) :
    ∃ q', v'.request = some q' ∧ (ledgerOf g' v' q').Balanced := by
  cases h with
  | create settings model hnone => exact nomatch hnone.symm.trans hq
  | adjust hq' => cases hq.symm.trans hq'; exact ⟨_, rfl, hb⟩
  | say e he => exact ⟨q, hq, hb.tell he.quiet.1 he.quiet.2⟩
  | _ => exact ⟨q, hq, hb⟩

theorem Visit.balanced (h : Visit r g v g' v') (hq : v.request = some q)
    (hb : (ledgerOf g v q).Balanced) :
    ∃ q', v'.request = some q' ∧ (ledgerOf g' v' q').Balanced := by
  cases h with
  | ask | lostPing => exact ⟨q, hq, hb⟩
  | pop hq' | enter hq' | leave hq' => cases hq.symm.trans hq'; exact ⟨_, rfl, hb⟩
  | start hq' | firstPing hq' =>
    cases hq.symm.trans hq'
    exact ⟨_, rfl, (hb.tell rfl rfl).tell rfl rfl⟩
  | flowAgain hq' | ping hq' => cases hq.symm.trans hq'; exact ⟨_, rfl, hb.tell rfl rfl⟩

theorem Hand.carried_eq_nil (hd : g.delivery = none) : g.carried = [] := by
  rw [carried, hd]

theorem carried_of_delivery {d : Delivery} (hd : g.delivery = some d) :
    g.carried = d.row.toList := by
  rw [Hand.carried, hd]

theorem Ledger.Balanced.move (hb : (ledgerOf g v q).Balanced) {d d' : Delivery}
    (hd : g.delivery = some d) (hd' : g'.delivery = some d') (hrow : d'.row = d.row) :
    (ledgerOf g' v q).Balanced := by
  rw [ledgerOf, carried_of_delivery hd', hrow, ← carried_of_delivery hd]
  exact hb

theorem Delivery.row_runDry (d : Delivery) (kind : RowKind) : (d.runDry kind).row = d.row := by
  cases kind <;> rfl

/-- No row is carried at both ends of a flush. -/
theorem Ledger.Balanced.empty (hb : (ledgerOf g v q).Balanced) (hg : g.carried = [])
    (hg' : g'.carried = []) : (ledgerOf g' v q).Balanced := by
  rw [ledgerOf, hg', ← hg]
  exact hb

/-- A flush carries rows from the queues to the destination, and may close. -/
theorem Flushing.balanced (h : Flushing r g v g' v') (hq : v.request = some q)
    (hb : (ledgerOf g v q).Balanced) (hf : q.flushing = true ↔ g.delivery ≠ none) :
    ∃ q', v'.request = some q' ∧ (ledgerOf g' v' q').Balanced := by
  cases h with
  | openOwn hq' hidle | openLast hq' hidle =>
    cases hq.symm.trans hq'
    have hempty : g.carried = [] := Hand.carried_eq_nil (Hand.delivery_eq_none hf hidle)
    refine ⟨_, rfl, ?_⟩
    first
      | exact hb.empty hempty rfl
      | exact (hb.tell rfl rfl).empty hempty rfl
  | take kind hq' hd hn hs hd' hr =>
    cases hq.symm.trans hq'
    have htake := hb.take (Request.rows_perm hr) (by simp [ledgerOf, Hand.carried, hd, hn.row])
    refine ⟨_, rfl, ?_⟩
    cases kind <;> exact htake
  | runDry kind hq' hd => exact ⟨q, hq, hb.move hd rfl (Delivery.row_runDry _ kind)⟩
  | @calling _ d c hq₀ hd =>
    have hmove : (ledgerOf { g with delivery := some { d with asked := some c } } v q).Balanced :=
      hb.move hd rfl rfl
    exact ⟨q, hq, hmove.tell rfl rfl⟩
  | @called d c answer hd hc =>
    refine ⟨q, hq, ?_⟩
    have hcarried : g.carried = c.row?.toList := by rw [carried_of_delivery hd, ← hc.row]
    cases c with
    | write row =>
      have hhand := hb.hand row hcarried
      rw [ledgerOf, Event.issuedIn_quiet rfl, Event.handedIn_cons]
      exact hhand
    | begin | complete | flush | close => exact (hb.empty hcarried rfl).tell rfl rfl
  | stop hq' hd => cases hq.symm.trans hq'; exact ⟨_, rfl, hb.move hd rfl rfl⟩
  | unfinished hq' hd => exact ⟨q, hq, hb.move hd rfl rfl⟩
  | @close _ d hq' hd hn hs hi hd' hp =>
    cases hq.symm.trans hq'
    have hmove : (ledgerOf { g with delivery := some { d with decided := true, closing := true } }
        v q).Balanced := hb.move hd rfl rfl
    exact ⟨_, rfl, hmove.close hp⟩
  | shutOwn hq' hd hdone | shutLast hq' hd hdone =>
    cases hq.symm.trans hq'
    exact ⟨_, rfl, hb.empty (by rw [carried_of_delivery hd, hdone.clear.row]; rfl) rfl⟩

/-- As long as a segment is open, a row is pending, so the request is not closed. -/
theorem Request.HasOpen.closed_eq_false {s : SegmentId} (ho : q.HasOpen s)
    (hb : (ledgerOf g v q).Balanced) : q.closed = false := by
  by_contra hc
  rw [Bool.not_eq_false] at hc
  have hp : q.openIds.length + q.queued.length = 0 := hb.pending.symm.trans (hb.closed hc)
  obtain ⟨seg, hs, hopen⟩ := ho
  have hmem : seg.id ∈ q.openIds :=
    List.mem_map_of_mem (List.mem_filter.mpr
      ⟨Array.mem_toList_iff.mpr (Array.mem_of_getElem? hs), by simp [hopen]⟩)
  have := List.length_pos_of_mem hmem
  omega

theorem Request.queued_model (q : Request κ) (row : Row) :
    { q with modelRows := q.modelRows ++ [row] }.queued.Perm (row :: q.queued) := by
  simp [Request.queued]

theorem Request.queued_error (q : Request κ) (row : Row) :
    { q with errorRows := q.errorRows ++ [row] }.queued.Perm (row :: q.queued) := by
  rw [Request.queued, ← List.append_assoc]
  exact List.perm_append_singleton _ _

/-- The steps of a pass give out ids and finish segments. -/
theorem Working.balanced (h : Working W r g v g' v') (hq : v.request = some q)
    (hb : (ledgerOf g v q).Balanced)
    (htry : ∀ b ∈ g.passes, ∀ a, b.attempt = some a → q.HasOpen a.segment) :
    ∃ q', v'.request = some q' ∧ (ledgerOf g' v' q').Balanced := by
  have htop : ∀ {b bs a}, g.passes = b :: bs → b.attempt = some a → q.HasOpen a.segment :=
    fun hp => htry _ (by rw [hp]; exact List.mem_cons_self) _
  cases h with
  | value | layer | wait | finish => exact ⟨q, hq, hb⟩
  | skip | attempt | leave => exact ⟨q, hq, hb.tell rfl rfl⟩
  | begin hq' => cases hq.symm.trans hq'; exact ⟨_, rfl, hb.tell rfl rfl⟩
  | memo hp ha hv hq' =>
    cases hq.symm.trans hq'
    refine ⟨_, rfl, ?_⟩
    rw [ledgerOf, Request.openIds_query (q := q) rfl]
    exact hb
  | defer query hp ha hv hq' =>
    cases hq.symm.trans hq'
    have hissue := hb.issueSegment ((htop hp ha).closed_eq_false hb)
    refine ⟨_, rfl, ?_⟩
    rw [ledgerOf, Request.openIds_push (q := q) rfl, Event.issuedIn_cons,
      Event.handedIn_quiet rfl]
    exact hissue
  | report e hp ha hv hq' =>
    cases hq.symm.trans hq'
    have hissue := hb.issueRow ((htop hp ha).closed_eq_false hb) rfl
      (q.queued_error (Row.ofError q.nextId e))
    refine ⟨_, rfl, ?_⟩
    rw [ledgerOf, Event.issuedIn_quiet rfl, Event.issuedIn_cons, Event.handedIn_quiet rfl,
      Event.handedIn_quiet rfl]
    exact hissue
  | @complete _ b bs a seg strict depth value json hp ha hv hw hq' hseg =>
    cases hq.symm.trans hq'
    obtain ⟨seg', hseg', hc⟩ := htop hp ha
    cases hseg.symm.trans hseg'
    have hfinish := hb.finish (Row.ofModel seg.id json) (Request.openIds_complete hseg hc)
      (q.queued_model _)
    refine ⟨_, rfl, ?_⟩
    rw [ledgerOf, Event.issuedIn_quiet rfl, Event.handedIn_quiet rfl]
    exact hfinish
  | @fail _ b bs a seg e hp ha hw hq' hseg =>
    cases hq.symm.trans hq'
    obtain ⟨seg', hseg', hc⟩ := htop hp ha
    cases hseg.symm.trans hseg'
    have hfinish := hb.finish (Row.ofError seg.id e) (Request.openIds_complete hseg hc)
      (q.queued_error _)
    refine ⟨_, rfl, ?_⟩
    rw [ledgerOf, Event.issuedIn_quiet rfl, Event.handedIn_quiet rfl]
    exact hfinish

theorem Event.IsAside.quiets {log : List Event} (h : ∀ e ∈ log, e.IsAside) :
    issuedIn log = [] ∧ handedIn log = [] := by
  induction log with
  | nil => exact ⟨rfl, rfl⟩
  | cons e log ih =>
    obtain ⟨hi, hh⟩ := (h e List.mem_cons_self).quiet
    rw [issuedIn_quiet hi, handedIn_quiet hh]
    exact ih fun e he => h e (List.mem_cons_of_mem _ he)

theorem Created.balanced (h : Created r g v) (settings : RequestSettings κ) (model : Model κ) :
    (ledgerOf g v (.ofModel settings model)).Balanced := by
  obtain ⟨log, hlog, hasides⟩ := h.log
  obtain ⟨hissued, hhanded⟩ := Event.IsAside.quiets hasides
  have hcarried : g.carried = [] := by
    rw [Hand.carried, Classical.not_not.mp fun hd => h.idle (.inr (.inr hd))]
  have hopened : (Request.ofModel settings model).openIds = [RowId.ofNat 0] := by
    simp [Request.ofModel, Request.openIds]
  rw [ledgerOf, hlog, Event.issuedIn_cons, Event.handedIn_quiet rfl, hissued, hhanded, hcarried,
    hopened]
  refine ⟨fun id => rfl, rfl, RowId.next_ofNat 0, rfl, fun hc => ?_⟩
  cases hc

theorem Turn.balanced (hc : Course W r g v) (ht : Turn W r g v g' v') (hapart : v.Apart)
    (hq : v.request = some q) (hb : (ledgerOf g v q).Balanced) :
    ∃ q', v'.request = some q' ∧ (ledgerOf g' v' q').Balanced := by
  cases ht with
  | ambient h => exact h.balanced hq hb
  | visit h => exact h.balanced hq hb
  | flushing h => exact h.balanced hq hb (hc.coherent.flushing q hq)
  | working h =>
    refine h.balanced hq hb fun b hmem a ha => ?_
    obtain ⟨q', hq', ho⟩ := hc.attempting hapart hmem ha
    cases hq.symm.trans hq'
    exact ho

/-- As long as no pass tries what another one is trying, every ledger is balanced. -/
theorem Course.balanced (h : Course W r g v) (hapart : v.Apart) (hq : v.request = some q) :
    (ledgerOf g v q).Balanced := by
  refine Course.induct (P := fun g v q => v.Apart → (ledgerOf g v q).Balanced)
    (fun settings model hnew _ => hnew.balanced settings model) ?_ h hq hapart
  intro g v g' v' q q' hc ht hq hq' ih hapart
  obtain ⟨q₁, hq₁, hb⟩ := ht.balanced hc (ht.apart hapart) hq (ih (ht.apart hapart))
  cases hq'.symm.trans hq₁
  exact hb

/-! ## Accounting -/

deriving instance DecidableEq for Event

namespace Host

/-- The ids that a request has given out, oldest first. -/
def issued (h : Host κ σ) (r : RequestId) : List RowId := Event.issuedIn (h.view r).log

/-- The rows that were handed to the destination of a request, oldest first. -/
def handed (h : Host κ σ) (r : RequestId) : List Row := Event.handedIn (h.view r).log

/-- No work pass of a request began while another call on it was under way. -/
def Unnested (h : Host κ σ) (r : RequestId) : Prop := .began r true ∉ h.journal

instance (h : Host κ σ) (r : RequestId) : Decidable (h.Unnested r) :=
  inferInstanceAs (Decidable (_ ∉ _))

/-- No work pass of a request tried a segment that another one was trying. -/
def Apart (h : Host κ σ) (r : RequestId) : Prop := Event.overlaps (h.view r).log = false

instance (h : Host κ σ) (r : RequestId) : Decidable (h.Apart r) :=
  inferInstanceAs (Decidable (_ = _))

theorem Unnested.calm {h : Host κ σ} {r : RequestId} (hu : h.Unnested r) : (h.view r).Calm r :=
  fun hmem => hu (List.mem_filter.mp hmem).1

theorem Reachable.apart {user : UserCode κ σ} {h : Host κ σ} {r : RequestId}
    (hr : Reachable user (fun _ => True) h) (hu : h.Unnested r) : h.Apart r :=
  (hr.course_any r).apart hu.calm

end Host

theorem RowId.ofNat_eq_iff {m : Nat} (h : m < 2 ^ 32) {id : RowId} :
    RowId.ofNat m = id ↔ id.toNat = m := by
  have hm : (RowId.ofNat m).toNat = m := by
    simp only [RowId.ofNat, RowId.toNat, UInt32.toNat_ofNat']
    omega
  constructor
  · rintro rfl
    exact hm
  · intro he
    cases id with
    | mk val =>
      rw [RowId.ofNat, ← he]
      simp [RowId.toNat]

theorem RowId.count_enumerate {m n : Nat} (h : m + n ≤ 2 ^ 32) (id : RowId) :
    (enumerate (.ofNat m) n).count id = if m ≤ id.toNat ∧ id.toNat < m + n then 1 else 0 := by
  induction n generalizing m with
  | zero => simp [enumerate]
  | succ n ih =>
    rw [enumerate, next_ofNat, List.count_cons, ih (by omega)]
    by_cases hid : id.toNat = m
    · have hbelow : m ≤ id.toNat ∧ id.toNat < m + (n + 1) := by omega
      have habove : ¬ (m + 1 ≤ id.toNat ∧ id.toNat < m + 1 + n) := by omega
      rw [(ofNat_eq_iff (by omega)).mpr hid, if_pos hbelow, if_neg habove]
      simp
    · have hne : ¬ RowId.ofNat m = id := fun he => hid ((ofNat_eq_iff (by omega)).mp he)
      simp only [beq_iff_eq, hne, if_false, Nat.add_zero]
      congr 1
      simp only [eq_iff_iff]
      omega

theorem RowId.mem_enumerate {m n : Nat} (h : m + n ≤ 2 ^ 32) {id : RowId} :
    id ∈ enumerate (.ofNat m) n ↔ m ≤ id.toNat ∧ id.toNat < m + n := by
  rw [← List.count_pos_iff, count_enumerate h]
  split <;> simp_all

theorem RowId.nodup_enumerate {m n : Nat} (h : m + n ≤ 2 ^ 32) : (enumerate (.ofNat m) n).Nodup := by
  refine List.nodup_iff_count.mpr fun id => ?_
  rw [count_enumerate h]
  split
  · exact Nat.le_refl 1
  · exact Nat.zero_le 1

namespace Host

/-- In every state that a session reaches, whatever user code and destinations do: as long as no
pass was nested and fewer than `2 ^ 32` ids were given out, each id below the next one stands in
one place, that of an open segment, of a queued row or of a row that was handed over, and no other
id stands anywhere. Open segments and queued rows are what is pending, each id given out was counted
up once and each row handed over was counted down once, and a closed request has nothing left. -/
theorem ids_accounted (user : UserCode κ σ) {h : Host κ σ}
    (hr : Reachable user (fun _ => True) h) {r : RequestId} {q : Request κ}
    (hq : h.requests[r.index]? = some q) (hu : h.Unnested r)
    (hids : (h.issued r).length < 2 ^ 32) :
    (∀ id : RowId, q.openIds.count id + (q.queued.map Row.id).count id +
        ((h.handed r).map Row.id).count id = if id.toNat < q.nextId.toNat then 1 else 0) ∧
      q.pending = q.openIds.length + q.queued.length ∧
      q.pending + (h.handed r).length = (h.issued r).length ∧
      (q.closed = true → q.openIds = [] ∧ q.queued = []) := by
  have hcourse := hr.course_any r
  have hb := hcourse.balanced (hr.apart hu) (q := q) hq
  have hnext : q.nextId.toNat = (h.issued r).length :=
    (RowId.ofNat_eq_iff hids).mp hb.nextId.symm
  refine ⟨fun id => ?_, hb.pending, ?_, hb.empty_of_closed⟩
  · have hbound : 0 + (ledgerOf {} (h.view r) q).issued.length ≤ 2 ^ 32 := by
      rw [Nat.zero_add]
      exact Nat.le_of_lt hids
    have hplaces := hb.places id
    rw [hb.issued, RowId.count_enumerate hbound, Nat.zero_add] at hplaces
    simpa [hnext, Ledger.places, ledgerOf, Hand.carried, handed, issued] using hplaces
  · have hlength := hb.perm.length_eq
    have hpending := hb.pending
    simp only [ledgerOf, Hand.carried, List.length_append, List.length_map, List.length_nil]
      at hlength hpending
    rw [hpending, issued, handed]
    omega

/-- Once the first pass is over, the late component stands for the id that is not handed over. -/
theorem ids_accounted_late :
    ∃ (h : Host Unit Unit) (q : Request Unit),
      Reachable Late.user (fun _ => True) h ∧ h.requests[0]? = some q ∧ h.Unnested ⟨0⟩ ∧
      (h.issued ⟨0⟩).length < 2 ^ 32 ∧ q.openIds = [RowId.ofNat 1] ∧
      (h.handed ⟨0⟩).map Row.id = [RowId.ofNat 0] ∧ q.pending = 1 := by
  obtain ⟨h, q, hr, hq, hp⟩ := exists_reachable (r := ⟨0⟩) (n := 20) Late.user
    Late.opening_makes
    (fun h q => decide (h.Unnested ⟨0⟩ ∧ h.issued ⟨0⟩ = [RowId.ofNat 0, RowId.ofNat 1] ∧
      q.openIds = [RowId.ofNat 1] ∧ (h.handed ⟨0⟩).map Row.id = [RowId.ofNat 0]))
    (by decide +kernel :
      (play Late.user () #[] Late.settings Late.model Late.opening 20).any _ = true)
  obtain ⟨hu, hissued, hopen, hhanded⟩ := of_decide_eq_true hp
  have hids : (h.issued ⟨0⟩).length < 2 ^ 32 := by
    rw [hissued]
    decide
  obtain ⟨-, -, hcounted, -⟩ := ids_accounted Late.user hr hq hu hids
  refine ⟨h, q, hr, hq, hu, hids, hopen, hhanded, ?_⟩
  rw [hissued, ← List.length_map, hhanded] at hcounted
  exact Nat.succ.inj hcounted

end Host
end TreeStream

import TreeStream.Proofs.Delivering
import TreeStream.Proofs.Whereabouts

/-!
# A request that comes to rest is complete

Work that was started is never forgotten: a segment that is pinged has a pass coming, and rows that
are queued have a flush coming. So once nothing is queued and nothing waits for a promise, all rows
are written and the destination has been closed. This needs a destination that refuses nothing.
-/

namespace TreeStream

variable {κ σ : Type} {W : World κ} {r : RequestId} {g g' : Hand κ} {v v' : View κ}
  {q q' : Request κ}

/-! ## Pinged segments have a pass coming -/

def Event.isStart : Event → Bool
  | started _ => true
  | _ => false

/-- From then on the pings of a request matter: its work is started, or a pass begins. -/
def Event.isEngagement : Event → Bool
  | started _ => true
  | began _ _ => true
  | _ => false

theorem Event.IsAside.isStart {e : Event} (h : e.IsAside) : e.isStart = false := by
  cases e <;> first | rfl | exact h.elim

theorem Event.IsAside.isEngagement {e : Event} (h : e.IsAside) : e.isEngagement = false := by
  cases e <;> first | rfl | exact h.elim

/-- A segment that is pinged has a pass coming, once the work was started or a pass has begun. -/
def Scheduled (g : Hand κ) (v : View κ) (q : Request κ) : Prop :=
  v.log.any Event.isEngagement = true → q.pinged ≠ [] → 0 < v.passes + g.due

theorem Turn.scheduled (ht : Turn W r g v g' v') (hq : v.request = some q)
    (hq' : v'.request = some q') (ih : Scheduled g v q) : Scheduled g' v' q' := by
  cases ht with
  | ambient h =>
    cases h with
    | create settings model hnone => cases hnone.symm.trans hq
    | adjust hq₀ => cases hq.symm.trans hq₀; cases hq'; exact ih
    | say e he =>
      cases hq.symm.trans hq'
      intro hengaged
      rw [List.any_cons, he.isEngagement, Bool.false_or] at hengaged
      exact ih hengaged
    | _ => cases hq.symm.trans hq'; exact ih
  | visit h =>
    cases h with
    | enter hq₀ | leave hq₀ | flowAgain hq₀ =>
      cases hq.symm.trans hq₀
      cases hq'
      exact ih
    | pop | ask => exact fun _ _ => Nat.add_pos_right _ (Nat.succ_pos _)
    | start | firstPing => exact fun _ _ => Nat.add_pos_left (Nat.succ_pos _) _
    | ping hq₀ ha hs hne =>
      cases hq.symm.trans hq₀
      exact fun hengaged _ => ih hengaged hne
    | lostPing => cases hq.symm.trans hq'; exact ih
  | flushing h =>
    cases h with
    | take kind hq₀ =>
      cases hq.symm.trans hq₀
      cases hq'
      cases kind <;> exact ih
    | runDry | calling | called | unfinished => cases hq.symm.trans hq'; exact ih
    | openOwn hq₀ | openLast hq₀ | stop hq₀ | close hq₀ | shutOwn hq₀ | shutLast hq₀ =>
      cases hq.symm.trans hq₀
      cases hq'
      exact ih
  | working h =>
    cases h with
    | begin hq₀ => cases hq'; exact fun _ hpinged => absurd rfl hpinged
    | skip | attempt | leave | value | layer | wait | finish => cases hq.symm.trans hq'; exact ih
    | memo _ _ _ hq₀ | defer _ _ _ _ hq₀ | report _ _ _ _ hq₀ | complete _ _ _ _ hq₀
    | fail _ _ _ hq₀ =>
      cases hq.symm.trans hq₀
      cases hq'
      exact ih

theorem Created.log_any (h : Created r g v) {p : Event → Bool}
    (hp : p (.issued r (RowId.ofNat 0)) = false) (hasides : ∀ e : Event, e.IsAside → p e = false) :
    v.log.any p = false := by
  obtain ⟨log, hlog, hall⟩ := h.log
  rw [hlog, List.any_cons, hp, Bool.false_or]
  exact List.any_eq_false.mpr fun e he => by simp [hasides e (hall e he)]

theorem Course.scheduled (h : Course W r g v) (hq : v.request = some q) : Scheduled g v q := by
  refine Course.induct (fun _ _ hnew hengaged => ?_)
    (fun _ ht hq hq' ih => ht.scheduled hq hq' ih) h hq
  rw [hnew.log_any rfl fun e he => he.isEngagement] at hengaged
  cases hengaged

/-! ## The flow goes on -/

def View.Smooth (v : View κ) : Prop :=
  ∀ r c answer, Event.called r c answer ∈ v.log → c.isRefusal answer = false

theorem Turn.smooth (h : Turn W r g v g' v') (hsmooth : v'.Smooth) : v.Smooth := by
  obtain ⟨events, he⟩ := h.log
  intro r c answer hmem
  exact hsmooth r c answer (by rw [he]; exact List.mem_append_right events hmem)

theorem View.Smooth.sound (h : v.Smooth) : v.Sound := by
  intro r c e hmem
  have := h r c (.error e) hmem
  simp [SinkCall.isRefusal, Except.isOk, Except.toBool] at this

theorem View.Smooth.saturatedIn (h : v.Smooth) {log : List Event} (hsub : ∀ e ∈ log, e ∈ v.log) :
    Event.saturatedIn log = false := by
  induction log with
  | nil => rfl
  | cons e log ih =>
    have ih := ih fun e he => hsub e (List.mem_cons_of_mem _ he)
    cases e with
    | calling r c n => cases c <;> first | rfl | exact ih
    | called r c answer =>
      have hanswer := h r c answer (hsub _ List.mem_cons_self)
      rw [SinkCall.isRefusal, Bool.or_eq_false_iff] at hanswer
      rw [Event.saturatedIn_called, hanswer.2, ih]
      rfl
    | _ => exact ih

theorem View.Smooth.timely (h : v.Smooth) : v.Timely r := by
  intro later earlier hlog
  refine h.saturatedIn fun e he => ?_
  rw [hlog]
  exact List.mem_append_right _ (List.mem_cons_of_mem _ he)

def Flows (v : View κ) (q : Request κ) : Prop := v.log.any Event.isStart = true → q.flowing = true

theorem Turn.flows (ht : Turn W r g v g' v') (hq : v.request = some q)
    (hq' : v'.request = some q') (hhalts : Halts g v q) (hsmooth : v.Smooth) (ih : Flows v q) :
    Flows v' q' := by
  cases ht with
  | ambient h =>
    cases h with
    | create settings model hnone => cases hnone.symm.trans hq
    | adjust hq₀ => cases hq.symm.trans hq₀; cases hq'; exact ih
    | say e he =>
      cases hq.symm.trans hq'
      intro hstarted
      rw [List.any_cons, he.isStart, Bool.false_or] at hstarted
      exact ih hstarted
    | _ => cases hq.symm.trans hq'; exact ih
  | visit h =>
    cases h with
    | start | flowAgain => cases hq'; exact fun _ => rfl
    | ask | lostPing => cases hq.symm.trans hq'; exact ih
    | enter hq₀ | leave hq₀ | pop hq₀ | ping hq₀ | firstPing hq₀ =>
      cases hq.symm.trans hq₀
      cases hq'
      exact ih
  | flushing h =>
    cases h with
    | openOwn => cases hq'; exact fun _ => rfl
    | take kind hq₀ =>
      cases hq.symm.trans hq₀
      cases hq'
      cases kind <;> exact ih
    | stop hq₀ hd hh =>
      have htold := hhalts.told _ hd (hhalts.halting _ hd hh)
      exact nomatch htold.symm.trans (hsmooth.saturatedIn fun e he => he)
    | runDry | calling | called | unfinished => cases hq.symm.trans hq'; exact ih
    | openLast hq₀ | close hq₀ | shutOwn hq₀ | shutLast hq₀ =>
      cases hq.symm.trans hq₀
      cases hq'
      exact ih
  | working h =>
    cases h with
    | skip | attempt | leave | value | layer | wait | finish => cases hq.symm.trans hq'; exact ih
    | begin hq₀ | memo _ _ _ hq₀ | defer _ _ _ _ hq₀ | report _ _ _ _ hq₀
    | complete _ _ _ _ hq₀ | fail _ _ _ hq₀ =>
      cases hq.symm.trans hq₀
      cases hq'
      exact ih

theorem Course.flows (h : Course W r g v) (hcalm : v.Calm r) (hsmooth : v.Smooth)
    (hq : v.request = some q) : Flows v q := by
  refine Course.induct (P := fun _ v q => v.Calm r → v.Smooth → Flows v q)
    (fun _ _ hnew _ _ hstarted => ?_) (fun hc ht hq hq' ih hcalm hsmooth => ?_) h hq hcalm hsmooth
  · rw [hnew.log_any rfl fun e he => he.isStart] at hstarted
    cases hstarted
  · have hbefore := ht.calm hcalm
    have hsmooth' := ht.smooth hsmooth
    have hhalts := hc.halts hbefore hsmooth'.sound hsmooth'.timely hq
    exact ht.flows hq hq' hhalts hsmooth' (ih hbefore hsmooth')

/-! ## At rest -/

/-- The world in which every thenable is a promise. Scripts are given no pings, and components and
loaders wait for promises only; all code may settle any promise at any time. -/
def World.sealed : World κ where
  may := HostCall.Plain
  render _ _ _ outcome := ∀ t, outcome = .suspended t → ∃ p, t = .promise p
  load _ outcome := ∀ t, outcome = .suspended t → ∃ p, t = .promise p

theorem World.not_free_sealed : ¬ (World.sealed : World κ).Free := fun ⟨_, hmay, hplain⟩ =>
  hplain hmay

namespace Host

/-- No pass of the request is queued, and nobody waits for a promise that is pending. -/
structure AtRest (h : Host κ σ) (r : RequestId) : Prop where
  queue : ∀ work ∈ h.queue, work.isPassOf r = false
  tasks : ∀ task ∈ h.tasks, task.isPassOf r = false
  promises : ∀ cell ∈ h.promises, cell.status = .pending → cell.reactions = []

def closings (h : Host κ σ) (r : RequestId) : Nat := (h.view r).log.countP Event.isClose

theorem AtRest.passes {h : Host κ σ} (hrest : h.AtRest r) : (h.view r).passes = 0 := by
  have hqueue := List.countP_eq_zero.mpr fun work hw => Bool.eq_false_iff.mp (hrest.queue work hw)
  have htasks := List.countP_eq_zero.mpr fun task ht => Bool.eq_false_iff.mp (hrest.tasks task ht)
  rw [view]
  simp only [hqueue, htasks]

theorem AtRest.registrations {h : Host κ σ} (hrest : h.AtRest r) (s : SegmentId) :
    registrations r s h.promises = 0 := by
  refine List.sum_eq_zero_iff_forall_eq_nat.mpr fun n hn => ?_
  obtain ⟨cell, hcell, rfl⟩ := List.mem_map.mp hn
  rw [PromiseCell.registrations]
  cases hs : cell.status with
  | pending => simp [PromiseStatus.isPending, hrest.promises cell (by simpa using hcell) hs]
  | settled outcome => rfl

theorem openIds_of_completed {q : Request κ}
    (h : ∀ s : SegmentId, s.index < q.segments.size → completedIn q.segments s = true) :
    q.openIds = [] := by
  rw [Request.openIds, List.map_eq_nil_iff, List.filter_eq_nil_iff]
  intro seg hmem
  obtain ⟨i, hi⟩ := Array.getElem?_of_mem (Array.mem_toList_iff.mp hmem)
  obtain ⟨hlt, -⟩ := Array.getElem?_eq_some_iff.mp hi
  have := h ⟨i⟩ hlt
  simp only [completedIn, hi, Option.any_some] at this
  simp [this]

/-- Where every thenable is a promise, in every state that a session reaches, each segment of a
request that lives is in one of three places: it is completed, or it is in the list of pinged
segments once, or one reaction of one pending promise has it tried again. So a request whose work
was started and that has come to rest is complete, provided that no pass was nested and that the
destination refused nothing: no row is pending, the destination was closed once, and the rows that
were written have the ids given out, each once. -/
theorem no_segment_lost (user : UserCode κ σ) (huser : user.KeepsTo World.sealed) {h : Host κ σ}
    (hr : Reachable user HostCall.Plain h) {r : RequestId} {q : Request κ}
    (hq : h.requests[r.index]? = some q) (halive : h.isAlive r = true) :
    (∀ s : SegmentId, s.index < q.segments.size →
      (completedIn q.segments s).toNat + q.pinged.count s + registrations r s h.promises = 1) ∧
    (h.Unnested r → .started r ∈ h.journal →
      (∀ c answer, .called r c answer ∈ h.journal → c.isRefusal answer = false) →
      h.AtRest r →
      q.pending = 0 ∧ h.closings r = 1 ∧
        ((h.handed r).map Row.id).Perm
          (RowId.enumerate (RowId.ofNat 0) (h.issued r).length)) := by
  have hcourse := Reachable.course (W := World.sealed) huser hr (fun _ _ _ => trivial)
    (fun _ _ _ => trivial) r
  have hgone : ¬ (h.view r).Gone := fun hgone => hgone.not_alive ((isAlive_iff h r).mp halive)
  have hplaces : ∀ s : SegmentId, s.index < q.segments.size →
      (completedIn q.segments s).toNat + q.pinged.count s + registrations r s h.promises = 1 := by
    intro s hs
    have := (hcourse.found World.not_free_sealed hgone).request hq s
    simpa [Request.places, View.places, hs, view] using this
  refine ⟨hplaces, fun hu hstarted hsmooth hrest => ?_⟩
  have hstarted' : Event.started r ∈ (h.view r).log := mem_log_of_journal hstarted rfl
  have hsmooth' : (h.view r).Smooth := fun r' c answer hmem => by
    obtain rfl := eq_of_mem_log hmem rfl
    exact hsmooth c answer (mem_journal_of_log hmem)
  have hbalanced := hcourse.balanced (hcourse.apart hu.calm) (q := q) hq
  have hdelivers := hcourse.delivers hu.calm hsmooth'.sound hsmooth'.timely hq
  have hflowing := hcourse.flows hu.calm hsmooth' hq
    (List.any_eq_true.mpr ⟨_, hstarted', rfl⟩)
  have hpinged : q.pinged = [] := by
    by_contra hne
    have := hcourse.scheduled hq (List.any_eq_true.mpr ⟨_, hstarted', rfl⟩) hne
    rw [hrest.passes] at this
    exact absurd this (Nat.lt_irrefl 0)
  have hopen : q.openIds = [] := openIds_of_completed fun s hs => by
    have := hplaces s hs
    rw [hpinged, hrest.registrations, List.count_nil] at this
    cases hc : completedIn q.segments s with
    | true => rfl
    | false => simp [hc] at this
  have hqueued : q.queued = [] := by
    rcases hdelivers.moving with hnil | (hstopped | hpos) | hpass | hflush
    · exact hnil
    · cases hflowing.symm.trans hstopped
    · rw [hrest.passes] at hpos
      exact absurd hpos (Nat.lt_irrefl 0)
    · exact absurd rfl hpass
    · exact absurd rfl hflush
  have hpending : q.pending = 0 := by
    rw [show q.pending = q.openIds.length + q.queued.length from hbalanced.pending, hopen, hqueued]
    rfl
  have hclosed : q.closed = true := by
    refine (hdelivers.finished hpending).resolve_right fun hflush => ?_
    obtain ⟨d, hd, -⟩ := hflush
    cases hd
  refine ⟨hpending, ?_, ?_⟩
  · have := (hcourse.closes hq).calls
    rw [hclosed] at this
    exact this
  · have hperm := hbalanced.perm
    rw [show (ledgerOf {} (h.view r) q).issued = h.issued r from rfl] at hperm
    have hissued : h.issued r = RowId.enumerate (.ofNat 0) (h.issued r).length := hbalanced.issued
    rw [← hissued]
    simpa [ledgerOf, hopen, hqueued, Hand.carried, handed] using hperm

theorem late_keepsTo_sealed : Late.user.KeepsTo World.sealed where
  render code props ref := by
    refine ⟨trivial, fun status _ => ?_⟩
    change ∀ t, _ = Resolution.suspended t → ∃ p, t = Thenable.promise p
    match status with
    | .pending => rintro t ⟨⟩; exact ⟨⟨0⟩, rfl⟩
    | .settled (.ok value) => rintro t ⟨⟩
    | .settled (.error e) => rintro t ⟨⟩
  load code := by
    change ∀ t, _ = Resolution.suspended t → ∃ p, t = Thenable.promise p
    rintro t ⟨⟩
  toModel code := trivial
  source code m := trivial
  manifest manifest m := trivial
  react code := trivial
  destination code call := trivial
  await hfree := absurd hfree World.not_free_sealed
  rendered code props ref t ht := .inr (ht t rfl)
  loaded code t ht := .inr (ht t rfl)

def Event.isRefusal : Event → Bool
  | .called _ c answer => c.isRefusal answer
  | _ => false

/-- Once its promise is fulfilled and all work is done, the late component is written and the
destination is closed. -/
theorem no_segment_lost_late :
    ∃ (h : Host Unit Unit) (q : Request Unit),
      Reachable Late.user HostCall.Plain h ∧ h.requests[0]? = some q ∧ h.isAlive ⟨0⟩ = true ∧
      h.Unnested ⟨0⟩ ∧ .started ⟨0⟩ ∈ h.journal ∧
      (∀ c answer, .called ⟨0⟩ c answer ∈ h.journal → c.isRefusal answer = false) ∧
      h.AtRest ⟨0⟩ ∧ h.issued ⟨0⟩ = [RowId.ofNat 0, RowId.ofNat 1] ∧
      q.pending = 0 ∧ h.closings ⟨0⟩ = 1 ∧
      ((h.handed ⟨0⟩).map Row.id).Perm [RowId.ofNat 0, RowId.ofNat 1] := by
  obtain ⟨h, q, hr, hq, hp⟩ := exists_reachable (r := ⟨0⟩) (n := 20) Late.user
    Late.whole_makes
    (fun h q => decide (h.isAlive ⟨0⟩ = true ∧ h.Unnested ⟨0⟩ ∧ .started ⟨0⟩ ∈ h.journal ∧
      h.journal.any Event.isRefusal = false ∧
      (h.queue.isEmpty = true ∧ h.tasks.isEmpty = true ∧
        (h.promises.all fun cell => cell.reactions.isEmpty) = true) ∧
      h.issued ⟨0⟩ = [RowId.ofNat 0, RowId.ofNat 1]))
    (by decide +kernel :
      (play Late.user () #[] Late.settings Late.model Late.whole 20).any _ = true)
  obtain ⟨halive, hu, hstarted, hall, ⟨hqueue, htasks, hpromises⟩, hissued⟩ :=
    of_decide_eq_true hp
  have hsmooth : ∀ c answer, .called ⟨0⟩ c answer ∈ h.journal → c.isRefusal answer = false :=
    fun c answer hmem => Bool.eq_false_iff.mpr (List.any_eq_false.mp hall _ hmem)
  have hrest : h.AtRest ⟨0⟩ :=
    { queue := fun work hw => by rw [List.isEmpty_iff.mp hqueue] at hw; cases hw
      tasks := fun task ht => by rw [List.isEmpty_iff.mp htasks] at ht; cases ht
      promises := fun cell hcell _ =>
        List.isEmpty_iff.mp (Array.all_eq_true'.mp hpromises cell hcell) }
  obtain ⟨hpending, hclosings, hperm⟩ := (no_segment_lost Late.user late_keepsTo_sealed hr hq
    halive).2 hu hstarted hsmooth hrest
  rw [hissued] at hperm
  exact ⟨h, q, hr, hq, halive, hu, hstarted, hsmooth, hrest, hissued, hpending, hclosings, hperm⟩

end Host
end TreeStream
